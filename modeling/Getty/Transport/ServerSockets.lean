import Getty.Transport.ServerClose

/-!
# The sockets of a server

The goroutines of a server once more, with the descriptors they open and close.  A
descriptor is opened by the socket call of `listenTCP` or `listenUDP`, by `Accept`, and for
every connection of net/http.  It is then in somebody's hands: of the goroutine that has
opened it, of the server, once the listener is published, and of a session, once `run` was
called for it.  Whoever gives up on it has to close it.  There are many places where this
happens, and most of them are on the way out after an error: a server that was closed
between the socket call and the publication, a connection to itself, a callback that fails
or panics, a request that comes too late.

The session of a UDP endpoint has no descriptor of its own: it works on the server's, and
closes that one.

The program is a refinement of the server without descriptors, so what is known of that one
holds here too.

## Main results

* `simulation` — without the descriptors it is the server.
* `outline_valid` — every step hands the descriptors on, or closes them.
* `every_socket_has_one_owner` — no descriptor is leaked, shared, or used after its close.
-/

namespace Getty.Transport.ServerSockets

open Getty.Verified.ThreadPool
open Getty.Transport.Server (Shared RunPc LoopPc ConnPc ClosePc EndPointType nextDelay)

/-! ## State -/

/-- The server with the open descriptors and a number no descriptor has had.  `stream` and
`pkt` are the descriptors of its open listeners.  The ghost `unpublished` says that
`RunEventLoop` has not got to the publication of a listener yet. -/
structure Sockets where
  base : Shared
  isOpen : Nat → Bool
  next : Nat
  stream : Option Nat
  pkt : Option Nat
  unpublished : Bool

def Sockets.init (t : EndPointType) : Sockets :=
  ⟨Shared.init t, fun _ => false, 0, none, none, true⟩

/-- A new descriptor, which has the number `next`. -/
def Sockets.socket (s : Sockets) : Sockets :=
  { s with isOpen := fun f => if f = s.next then true else s.isOpen f, next := s.next + 1 }

/-- `Close` of a connection or a listener. -/
def Sockets.close (s : Sockets) (fd : Option Nat) : Sockets :=
  { s with isOpen := fun f => if fd = some f then false else s.isOpen f }

def Sockets.closeStream (s : Sockets) : Sockets := { s.close s.stream with stream := none }

def Sockets.closePkt (s : Sockets) : Sockets := { s.close s.pkt with pkt := none }

def Sockets.withBase (s : Sockets) (b : Shared) : Sockets := { s with base := b }

/-- The listener is published with the descriptor of the goroutine, which gives `s.lock`
back. -/
def Sockets.publish (s : Sockets) (fd : Option Nat) : Sockets :=
  let base := { s.base.publish with locked := false }
  match s.base.endPointType with
  | .udpEndpoint => { s with base := base, pkt := fd, unpublished := false }
  | _ => { s with base := base, stream := fd, unpublished := false }

/-- A goroutine with the descriptor in its hands, or a session with its own. -/
inductive Thread where
  | server (th : Server.Thread) (fd : Option Nat)
  | session (fd : Option Nat)
  deriving Repr, DecidableEq

abbrev Outcomes := List (Sockets × List Thread)

/-! ## Steps -/

/-- The outcomes of a step of the server that hands the descriptor on. -/
def lift (s : Sockets) (fd : Option Nat) (outs : Server.Outcomes) : Outcomes :=
  liftOutcomes (fun b _ => s.withBase b) (.server · fd) outs

/-- The descriptors that a step of `Close` closes. -/
def closeEffect (s : Sockets) : ClosePc → Sockets
  | .shutdown => if s.base.serving then s.closeStream else s
  | .closeStream stream _ => if stream then s.closeStream else s
  | .closePkt pkt => if pkt then s.closePkt else s
  | _ => s

def runStep (s : Sockets) (fd : Option Nat) : RunPc → Outcomes
  | .listen =>
      if s.base.done then [({ s with unpublished := false }, [])]
      else [(s, [.server (.runEventLoop .bind) none])]
  | .bind =>
      [(s.socket, [.server (.runEventLoop .publish) (some s.next)]),
        ({ s with unpublished := false }, [])]
  | .publish =>
      if s.base.locked then []
      else if s.base.done then [({ s.close fd with unpublished := false }, [])]
      else [(s.withBase { s.base with locked := true }, [.server (.runEventLoop .store) fd])]
  | .store => [(s.publish fd, [.server (.runEventLoop .register) none])]
  | .register => lift s fd (Server.runStep s.base .register)
  | .add => lift s fd (Server.runStep s.base .add)
  | .launch => lift s fd (Server.runStep s.base .launch)

def loopStep (s : Sockets) (fd : Option Nat) : LoopPc → Outcomes
  | .accept delay =>
      let failed := [.server (.loop (.check (nextDelay delay))) none]
      if s.base.streamListener = some ⟨false⟩ then
        -- a connection, an error, or a connection to itself, which is closed at once
        [(s.socket, [.server (.loop (.newSession delay)) (some s.next)]), (s, failed),
          (s.socket.close (some s.next), failed)]
      else [(s, failed)]
  | .inNewSession delay =>
      match s.base.endPointType with
      | .udpEndpoint =>
          [(s, [.server (.loop .run) fd]),
            (s.closePkt.withBase s.base.closePkt, [.server (.loop .exit) none])]
      | _ =>
          [(s, [.server (.loop .run) fd]),
            (s.close fd, [.server (.loop (.check (nextDelay delay))) none])]
  | .run =>
      match s.base.endPointType with
      | .udpEndpoint =>
          [(s.withBase s.base.startSession, [.server (.loop .exit) none, .session none])]
      | _ => [(s.withBase s.base.startSession, [.server (.loop (.check 0)) none, .session fd])]
  | .serve =>
      let ended := (s.closeStream.withBase { s.base.closeStream with serving := false },
        [Thread.server (.loop .exit) none])
      if s.base.shutdown = false ∧ s.base.streamListener = some ⟨false⟩ then
        [(s.socket, [.server (.loop .serve) none, .server (.conn .idle) (some s.next)]), ended]
      else [ended]
  | pc => lift s fd (Server.loopStep s.base pc)

/-- A connection of net/http is closed when it ends there; one that was hijacked has to be
closed by the handler. -/
def connStep (s : Sockets) (fd : Option Nat) : ConnPc → Outcomes
  | .idle =>
      if s.base.shutdown then [(s.close fd, [])]
      else [(s.withBase s.base.track, [.server (.conn .method) fd]), (s.close fd, [])]
  | .sameAddr => [(s, [.server (.conn .newSession) fd]), (s.close fd, [])]
  | .inNewSession => [(s, [.server (.conn .run) fd]), (s.close fd, [])]
  | .run => [(s.withBase s.base.startSession, [.session fd])]
  | pc => lift s fd (Server.connStep s.base pc)

def step (s : Sockets) : Thread → Outcomes
  | .server (.close pc) fd => lift (closeEffect s pc) fd (Server.closeStep s.base pc)
  | .server (.runEventLoop pc) fd => runStep s fd pc
  | .server (.loop pc) fd => loopStep s fd pc
  | .server (.conn pc) fd => connStep s fd pc
  -- a session ends, and closes its connection
  | .session none => [(s.closePkt, [])]
  | .session (some f) => [(s.close (some f), [])]

/-- `Close` may be called at any time. -/
def entry (_ : Sockets) : Thread → Bool
  | .server (.close .select) none => true
  | _ => false

def prog : Prog Sockets Thread where
  entry := entry
  step := step

def initial (t : EndPointType) : Conf Sockets Thread :=
  ⟨Sockets.init t, [.server (.runEventLoop .listen) none]⟩

/-! ## The server without descriptors -/

def Thread.erase : Thread → List Server.Thread
  | .server th _ => [th]
  | .session _ => []

theorem mem_lift {s s' : Sockets} {fd : Option Nat} {outs : Server.Outcomes} {bs : List Thread}
    (h : (s', bs) ∈ lift s fd outs) :
    ∃ b ths, (b, ths) ∈ outs ∧ s' = s.withBase b ∧ bs = ths.map fun th => .server th fd :=
  mem_liftOutcomes h

theorem mem_of_mem_lift {s s' : Sockets} {fd : Option Nat} {outs : Server.Outcomes}
    {bs : List Thread} (h : (s', bs) ∈ lift s fd outs) :
    (s'.base, bs.flatMap Thread.erase) ∈ outs := by
  obtain ⟨b, ths, hout, rfl, rfl⟩ := mem_lift h
  rw [flatMap_map_below fun _ _ => rfl]
  exact hout

private theorem base_runStep {s s' : Sockets} {fd : Option Nat} {pc : RunPc} {bs : List Thread}
    (h : (s', bs) ∈ runStep s fd pc) :
    (s'.base, bs.flatMap Thread.erase) ∈ Server.runStep s.base pc := by
  cases pc with
  | listen =>
      simp only [runStep] at h
      split at h
      · next hdone =>
          cases List.mem_singleton.mp h
          simp [Server.runStep, hdone]
      · next hdone =>
          cases List.mem_singleton.mp h
          simp [Server.runStep, hdone, Thread.erase]
  | bind =>
      simp only [runStep, List.mem_cons, List.not_mem_nil, or_false] at h
      rcases h with h | h
      · cases h
        simp [Server.runStep, Sockets.socket, Thread.erase]
      · cases h
        simp [Server.runStep]
  | publish =>
      simp only [runStep] at h
      split at h
      · cases h
      · next hlocked =>
          split at h
          · next hdone =>
              cases List.mem_singleton.mp h
              simp [Server.runStep, hlocked, hdone, Sockets.close]
          · next hdone =>
              cases List.mem_singleton.mp h
              simp [Server.runStep, hlocked, hdone, Sockets.withBase, Thread.erase]
  | store =>
      cases List.mem_singleton.mp h
      have hbase : (s.publish fd).base = { s.base.publish with locked := false } := by
        unfold Sockets.publish
        split <;> rfl
      simp [Server.runStep, hbase, Thread.erase]
  | register | add | launch => exact mem_of_mem_lift h

private theorem base_loopStep {s s' : Sockets} {fd : Option Nat} {pc : LoopPc} {bs : List Thread}
    (h : (s', bs) ∈ loopStep s fd pc) :
    (s'.base, bs.flatMap Thread.erase) ∈ Server.loopStep s.base pc := by
  cases pc with
  | accept delay =>
      simp only [loopStep] at h
      split at h
      · next hopen =>
          simp only [List.mem_cons, List.not_mem_nil, or_false] at h
          rcases h with h | h | h <;> cases h <;>
            simp [Server.loopStep, hopen, Sockets.socket, Sockets.close, Thread.erase]
      · next hclosed =>
          cases List.mem_singleton.mp h
          simp [Server.loopStep, hclosed, Thread.erase]
  | inNewSession delay =>
      simp only [loopStep] at h
      cases ht : s.base.endPointType <;> rw [ht] at h <;>
        simp only [List.mem_cons, List.not_mem_nil, or_false] at h <;>
        rcases h with h | h <;> cases h <;>
        simp [Server.loopStep, ht, Sockets.withBase, Sockets.close, Thread.erase]
  | run =>
      simp only [loopStep] at h
      cases ht : s.base.endPointType <;> rw [ht] at h <;> cases List.mem_singleton.mp h <;>
        simp [Server.loopStep, ht, Sockets.withBase, Thread.erase]
  | serve =>
      simp only [loopStep] at h
      split at h
      · next hserve =>
          simp only [List.mem_cons, List.not_mem_nil, or_false] at h
          rcases h with h | h <;> cases h <;>
            simp [Server.loopStep, hserve.1, hserve.2, Sockets.socket, Sockets.withBase,
              Thread.erase]
      · next hserve =>
          cases List.mem_singleton.mp h
          simp [Server.loopStep, hserve, Sockets.withBase, Thread.erase]
  | _ => exact mem_of_mem_lift h

private theorem base_connStep {s s' : Sockets} {fd : Option Nat} {pc : ConnPc} {bs : List Thread}
    (h : (s', bs) ∈ connStep s fd pc) :
    (s'.base, bs.flatMap Thread.erase) ∈ Server.connStep s.base pc := by
  cases pc with
  | idle =>
      simp only [connStep] at h
      split at h
      · next hshut =>
          cases List.mem_singleton.mp h
          simp [Server.connStep, hshut, Sockets.close]
      · next hshut =>
          simp only [List.mem_cons, List.not_mem_nil, or_false] at h
          rcases h with h | h <;> cases h <;>
            simp [Server.connStep, hshut, Sockets.withBase, Sockets.close, Thread.erase]
  | sameAddr | inNewSession =>
      rcases List.mem_pair.mp h with h | h <;> cases h <;>
        simp [Server.connStep, Sockets.close, Thread.erase]
  | run =>
      cases List.mem_singleton.mp h
      simp [Server.connStep, Sockets.withBase, Thread.erase]
  | _ => exact mem_of_mem_lift h

/-- A step of a goroutine is a step of the server. -/
theorem base_step {s s' : Sockets} {th : Server.Thread} {fd : Option Nat} {bs : List Thread}
    (h : (s', bs) ∈ step s (.server th fd)) :
    (s'.base, bs.flatMap Thread.erase) ∈ Server.step s.base th := by
  cases th with
  | close pc => exact mem_of_mem_lift h
  | runEventLoop pc => exact base_runStep h
  | loop pc => exact base_loopStep h
  | conn pc => exact base_connStep h

theorem base_session {s s' : Sockets} {fd : Option Nat} {bs : List Thread}
    (h : (s', bs) ∈ step s (.session fd)) : s'.base = s.base ∧ bs = [] := by
  cases fd <;> cases List.mem_singleton.mp h <;> exact ⟨rfl, rfl⟩

/-- **Without the descriptors it is the server.** -/
def simulation : Simulation prog Server.prog where
  shared := Sockets.base
  thread := Thread.erase
  entry s a pool h := by
    cases a with
    | session fd => cases h
    | server th fd =>
        have hentry : Server.prog.entry s.base th = true := by
          change entry s (.server th fd) = true at h
          unfold entry at h
          split at h
          · next heq =>
              cases heq
              rfl
          · cases h
        exact .start pool hentry
  step s a s' bs pool h := by
    cases a with
    | session fd =>
        obtain ⟨hbase, rfl⟩ := base_session h
        rw [hbase]
        exact .refl _ _
    | server th fd => exact .fire pool (base_step h)

/-! ## Who owns what -/

/-- One if it is this descriptor. -/
def own (fd : Option Nat) (f : Nat) : Nat := if fd = some f then 1 else 0

/-- A goroutine at this place has a descriptor in its hands. -/
def carries (t : EndPointType) : Server.Thread → Bool
  | .runEventLoop .publish => true
  | .runEventLoop .store => true
  | .loop (.newSession _) => t != .udpEndpoint
  | .loop (.inNewSession _) => t != .udpEndpoint
  | .loop .run => t != .udpEndpoint
  | .conn _ => true
  | _ => false

/-- The accept loop of a TCP server between two connections. -/
def polls : Server.Thread → Bool
  | .loop (.check _) => true
  | .loop (.backoff _) => true
  | .loop (.accept _) => true
  | _ => false

/-- `RunEventLoop` before the publication. -/
def unpublished : Server.Thread → Bool
  | .runEventLoop .listen => true
  | .runEventLoop .bind => true
  | .runEventLoop .publish => true
  | .runEventLoop .store => true
  | _ => false

/-- What holds of the shared state. -/
structure Inv (s : Sockets) : Prop where
  fresh : ∀ f, s.next ≤ f → s.isOpen f = false
  stream : s.stream ≠ none → s.base.streamListener = some ⟨false⟩
  pkt : s.pkt ≠ none → s.base.pktListener = some ⟨false⟩
  unpublished : s.unpublished = true → s.stream = none ∧ s.pkt = none

/-- What holds of a thread: it has a descriptor where it should, and a UDP endpoint does not
accept. -/
def Local (s : Sockets) : Thread → Prop
  | .server th fd =>
      fd.isSome = carries s.base.endPointType th ∧
        (polls th = true → s.base.endPointType ≠ .udpEndpoint)
  | .session fd => fd = none → s.base.endPointType = .udpEndpoint

/-- A ledger for each descriptor: it is open, and not one of the listeners'.  A further one
for the publication. -/
def outline : Outline Sockets Thread (Option Nat) where
  shared := Inv
  loc := Local
  val
    | none, s => s.unpublished.toNat
    | some f, s => (s.isOpen f).toNat - own s.stream f - own s.pkt f
  wt
    | none, .server th _ => (unpublished th).toNat
    | none, .session _ => 0
    | some f, .server _ fd => own fd f
    | some f, .session fd => own fd f

section Ledger

variable {s s' : Sockets}

@[simp] theorem own_none (f : Nat) : own none f = 0 := rfl

@[simp] theorem val_withBase (b : Shared) (i : Option Nat) :
    outline.val i (s.withBase b) = outline.val i s := by
  cases i <;> rfl

theorem fd_eq_none {th : Server.Thread} {fd : Option Nat} (hl : Local s (.server th fd))
    (h : carries s.base.endPointType th = false) : fd = none :=
  Option.isNone_iff_eq_none.mp (Option.isSome_eq_false_iff.mp (hl.1.trans h))

theorem local_none {th : Server.Thread} (hc : carries s.base.endPointType th = false)
    (hp : polls th = false) : Local s (.server th none) :=
  ⟨hc.symm, fun h => absurd (hp.symm.trans h) Bool.false_ne_true⟩

/-- A new descriptor is in nobody's hands yet. -/
theorem val_socket (hs : Inv s) (f : Nat) :
    outline.val (some f) s.socket = outline.val (some f) s + own (some s.next) f := by
  simp only [outline, Sockets.socket, own, Option.some.injEq]
  by_cases hf : f = s.next
  · subst hf
    have := hs.fresh s.next (Nat.le_refl _)
    simp [this]
    omega
  · have hne : ¬ s.next = f := fun h => hf h.symm
    simp [hf, hne]

/-- Closing a descriptor that is open. -/
theorem val_close {fd : Option Nat} {f : Nat} (h : fd = some f → s.isOpen f = true) :
    outline.val (some f) (s.close fd) = outline.val (some f) s - own fd f := by
  simp only [outline, Sockets.close, own]
  by_cases hfd : fd = some f
  · simp [hfd, h hfd]
    omega
  · simp [hfd]

/-- The server gives up an open listener. -/
theorem val_closeStream {f : Nat} (h : 0 ≤ outline.val (some f) s) :
    outline.val (some f) s.closeStream = outline.val (some f) s := by
  simp only [outline, Sockets.closeStream, Sockets.close, own] at h ⊢
  have hopen : (s.isOpen f).toNat ≤ 1 := Bool.toNat_le _
  split <;> simp_all
  omega

theorem val_closePkt {f : Nat} (h : 0 ≤ outline.val (some f) s) :
    outline.val (some f) s.closePkt = outline.val (some f) s := by
  simp only [outline, Sockets.closePkt, Sockets.close, own] at h ⊢
  have hopen : (s.isOpen f).toNat ≤ 1 := Bool.toNat_le _
  split <;> simp_all
  omega

/-- The ledgers bound what a thread has. -/
abbrev Booked (s : Sockets) (a : Thread) : Prop := outline.Booked s a

theorem Booked.nonneg {a : Thread} (h : Booked s a) (i : Option Nat) : 0 ≤ outline.val i s :=
  Int.le_trans (Int.natCast_nonneg _) (h i)

/-- A descriptor in somebody's hands is open, and is not a listener's. -/
theorem Booked.isOpen {a : Thread} (h : Booked s a) {f : Nat} (hf : outline.wt (some f) a = 1) :
    s.isOpen f = true := by
  have hle := h (some f)
  rw [hf] at hle
  cases ho : s.isOpen f with
  | true => rfl
  | false =>
      simp only [outline, ho] at hle
      simp at hle
      omega

theorem inv_withBase (hs : Inv s) {b : Shared} (hstream : b.streamListener = s.base.streamListener)
    (hpkt : b.pktListener = s.base.pktListener) : Inv (s.withBase b) where
  fresh := hs.fresh
  stream h := hstream.trans (hs.stream h)
  pkt h := hpkt.trans (hs.pkt h)
  unpublished := hs.unpublished

theorem inv_socket (hs : Inv s) : Inv s.socket where
  fresh f hf := by
    simp only [Sockets.socket] at hf ⊢
    rw [if_neg (by omega)]
    exact hs.fresh f (by omega)
  stream := hs.stream
  pkt := hs.pkt
  unpublished := hs.unpublished

theorem inv_close (hs : Inv s) (fd : Option Nat) : Inv (s.close fd) where
  fresh f hf := by
    simp only [Sockets.close]
    split
    · rfl
    · exact hs.fresh f hf
  stream := hs.stream
  pkt := hs.pkt
  unpublished := hs.unpublished

/-- The server closes its listener, or `Serve` does. -/
theorem inv_closeStream (hs : Inv s) {b : Shared} (hpkt : b.pktListener = s.base.pktListener) :
    Inv (s.closeStream.withBase b) where
  fresh := (inv_close hs s.stream).fresh
  stream h := absurd rfl h
  pkt h := hpkt.trans (hs.pkt h)
  unpublished h := ⟨rfl, (hs.unpublished h).2⟩

theorem inv_closePkt (hs : Inv s) {b : Shared}
    (hstream : b.streamListener = s.base.streamListener) : Inv (s.closePkt.withBase b) where
  fresh := (inv_close hs s.pkt).fresh
  stream h := hstream.trans (hs.stream h)
  pkt h := absurd rfl h
  unpublished h := ⟨(hs.unpublished h).1, rfl⟩

/-! ## Steps keep the books -/

/-- What a step has to show. -/
abbrev Keeps (s : Sockets) (a : Thread) (s' : Sockets) (bs : List Thread) : Prop :=
  outline.Keeps s a s' bs

/-- A goroutine goes on with what it has in its hands. -/
theorem keeps_on {th th' : Server.Thread} {fd : Option Nat} (hinv : Inv s')
    (hval : ∀ f, outline.val (some f) s' = outline.val (some f) s)
    (hpub : s'.unpublished = s.unpublished) (hu : unpublished th' = unpublished th)
    (hloc : Local s' (.server th' fd)) :
    Keeps s (.server th fd) s' [.server th' fd] := by
  refine Outline.keeps_one hinv hloc fun i => ?_
  cases i with
  | none => simp [outline, hpub, hu]
  | some f =>
      rw [hval f]
      rfl

/-- A goroutine with empty hands ends. -/
theorem keeps_end {th : Server.Thread} (hinv : Inv s')
    (hval : ∀ f, outline.val (some f) s' = outline.val (some f) s)
    (hpub : s'.unpublished = s.unpublished) (hu : unpublished th = false) :
    Keeps s (.server th none) s' [] := by
  refine Outline.keeps_end hinv fun i => ?_
  cases i with
  | none => simp [outline, hpub, hu]
  | some f =>
      rw [hval f]
      exact Int.add_zero _

/-- A goroutine closes what it has in its hands, and goes on or ends. -/
theorem keeps_close {th : Server.Thread} {fd : Option Nat} (hs : Inv s) (ths : List Server.Thread)
    (hb : Booked s (.server th fd)) (hu : unpublished th = false)
    (hths : ∀ th' ∈ ths, unpublished th' = false ∧ Local s (.server th' none)) :
    Keeps s (.server th fd) (s.close fd) (ths.map fun th' => .server th' none) where
  inv := inv_close hs fd
  loc b hb := by
    obtain ⟨th', hth', rfl⟩ := List.mem_map.mp hb
    exact (hths th' hth').2
  ledger i := by
    cases i with
    | none =>
        rw [total_map_eq_zero _ _ fun th' hth' => by simp [outline, (hths th' hth').1]]
        simp [outline, hu, Sockets.close]
    | some f =>
        rw [total_map_eq_zero _ _ fun th' _ => by simp [outline]]
        rw [val_close fun hfd => hb.isOpen (by simp [outline, own, hfd])]
        simp [outline]

/-- `Close` closes the descriptors of the listeners it closes. -/
private theorem inv_closeEffect (hs : Inv s) {pc : ClosePc} {b : Shared} {ths : List Server.Thread}
    (h : (b, ths) ∈ Server.closeStep s.base pc) : Inv ((closeEffect s pc).withBase b) := by
  cases pc with
  | shutdown =>
      cases List.mem_singleton.mp h
      simp only [closeEffect, Shared.beginShutdown]
      split
      · exact inv_closeStream hs rfl
      · exact inv_withBase hs rfl rfl
  | closeStream stream pkt =>
      cases List.mem_singleton.mp h
      simp only [closeEffect]
      split
      · exact inv_closeStream hs rfl
      · exact inv_withBase hs rfl rfl
  | closePkt pkt =>
      cases List.mem_singleton.mp h
      simp only [closeEffect]
      split
      · exact inv_closePkt hs rfl
      · exact inv_withBase hs rfl rfl
  | doOnce =>
      simp only [Server.closeStep] at h
      split at h
      · cases List.mem_singleton.mp h
        exact inv_withBase hs rfl rfl
      · cases h
      · cases List.mem_singleton.mp h
        exact inv_withBase hs rfl rfl
  | lock =>
      obtain ⟨-, h⟩ := mem_blocked h
      cases h
      exact inv_withBase hs rfl rfl
  | select | drain =>
      simp only [Server.closeStep] at h
      split at h <;> cases List.mem_singleton.mp h <;> exact inv_withBase hs rfl rfl
  | closeDone | snapshot | finish =>
      cases List.mem_singleton.mp h
      exact inv_withBase hs rfl rfl
  | wait hasty =>
      obtain ⟨-, h⟩ := mem_guarded h
      cases h
      exact inv_withBase hs rfl rfl

private theorem val_closeEffect (pc : ClosePc) {f : Nat} (h : 0 ≤ outline.val (some f) s) :
    outline.val (some f) (closeEffect s pc) = outline.val (some f) s := by
  cases pc with
  | shutdown =>
      simp only [closeEffect]
      split
      · exact val_closeStream h
      · rfl
  | closeStream stream pkt =>
      simp only [closeEffect]
      split
      · exact val_closeStream h
      · rfl
  | closePkt pkt =>
      simp only [closeEffect]
      split
      · exact val_closePkt h
      · rfl
  | _ => rfl

private theorem closeEffect_unpublished (s : Sockets) (pc : ClosePc) :
    (closeEffect s pc).unpublished = s.unpublished := by
  cases pc <;> simp only [closeEffect] <;> first | rfl | (split <;> rfl)

/-- `Close` goes on with `Close`. -/
private theorem closeStep_threads {b b' : Shared} {pc : ClosePc} {ths : List Server.Thread}
    (h : (b', ths) ∈ Server.closeStep b pc) : ths = [] ∨ ∃ pc', ths = [.close pc'] := by
  cases pc <;> simp only [Server.closeStep] at h <;> (try split at h) <;>
    first
    | (cases List.mem_singleton.mp h; exact Or.inr ⟨_, rfl⟩)
    | (cases List.mem_singleton.mp h; exact Or.inl rfl)
    | cases h

private theorem keeps_closeStep (hs : Inv s) {pc : ClosePc} {fd : Option Nat}
    (hl : Local s (.server (.close pc) fd)) (hb : Booked s (.server (.close pc) fd))
    {bs : List Thread}
    (h : (s', bs) ∈ lift (closeEffect s pc) fd (Server.closeStep s.base pc)) :
    Keeps s (.server (.close pc) fd) s' bs := by
  obtain rfl := fd_eq_none hl rfl
  obtain ⟨b, ths, hout, rfl, rfl⟩ := mem_lift h
  have hinv := inv_closeEffect hs hout
  have hval : ∀ f, outline.val (some f) ((closeEffect s pc).withBase b) =
      outline.val (some f) s := by
    intro f
    rw [val_withBase, val_closeEffect pc (hb.nonneg (some f))]
  have hpub : ((closeEffect s pc).withBase b).unpublished = s.unpublished :=
    closeEffect_unpublished s pc
  rcases closeStep_threads hout with rfl | ⟨pc', rfl⟩
  · exact keeps_end hinv hval hpub rfl
  · exact keeps_on hinv hval hpub rfl (local_none rfl rfl)

/-- A step of the server that leaves the listeners alone, by a goroutine that keeps what it
has. -/
theorem keeps_lift (hs : Inv s) {th th' : Server.Thread} {fd : Option Nat} {b : Shared}
    (hl : Local s (.server th fd)) (htype : b.endPointType = s.base.endPointType)
    (hstream : b.streamListener = s.base.streamListener)
    (hpkt : b.pktListener = s.base.pktListener) (hu : unpublished th' = unpublished th)
    (hc : carries s.base.endPointType th' = carries s.base.endPointType th)
    (hp : polls th' = true → s.base.endPointType ≠ .udpEndpoint) :
    Keeps s (.server th fd) (s.withBase b) [.server th' fd] := by
  refine keeps_on (inv_withBase hs hstream hpkt) (fun f => val_withBase b (some f)) rfl hu ?_
  have htype' : (s.withBase b).base.endPointType = s.base.endPointType := htype
  simp only [Local, htype', hc]
  exact ⟨hl.1, hp⟩

theorem Booked.unpublished {th : Server.Thread} {fd : Option Nat} (hb : Booked s (.server th fd))
    (hu : unpublished th = true) : s.unpublished = true := by
  have := hb none
  cases h : s.unpublished with
  | true => rfl
  | false => simp [outline, h, hu] at this

/-- `RunEventLoop` ends without a listener. -/
private theorem keeps_giveUp (hs : Inv s) {th : Server.Thread} {fd : Option Nat}
    (hb : Booked s (.server th fd)) (hu : unpublished th = true) :
    Keeps s (.server th fd) { s.close fd with unpublished := false } [] := by
  refine Outline.keeps_end
    ⟨(inv_close hs fd).fresh, hs.stream, hs.pkt, fun h => by cases h⟩ fun i => ?_
  cases i with
  | none => simp [outline, hu, hb.unpublished hu]
  | some f =>
      have := val_close fun hfd : fd = some f => hb.isOpen (by simp [outline, own, hfd])
      simp only [outline, Sockets.close] at this ⊢
      omega

private theorem close_none (s : Sockets) : s.close none = s := by
  simp [Sockets.close]

/-- A listener is published. -/
private theorem keeps_publish (hs : Inv s) {fd : Option Nat}
    (hb : Booked s (.server (.runEventLoop .store) fd)) :
    Keeps s (.server (.runEventLoop .store) fd) (s.publish fd)
      [.server (.runEventLoop .register) none] := by
  have hpub := hb.unpublished rfl
  obtain ⟨hstream, hpkt⟩ := hs.unpublished hpub
  have hun : (s.publish fd).unpublished = false := by
    unfold Sockets.publish
    split <;> rfl
  have hval : ∀ f, outline.val (some f) (s.publish fd) = outline.val (some f) s - own fd f := by
    intro f
    unfold Sockets.publish
    split <;> simp [outline, hstream, hpkt]
  refine Outline.keeps_one ?_ (local_none rfl rfl) fun i => ?_
  · unfold Sockets.publish
    split
    · next ht =>
        exact ⟨hs.fresh, fun h => absurd hstream h, fun _ => by simp [Shared.publish, ht],
          fun h => by cases h⟩
    · next ht =>
        refine ⟨hs.fresh, fun _ => ?_, fun h => absurd hpkt h, fun h => by cases h⟩
        dsimp only
        unfold Shared.publish
        split
        · next ht' => exact absurd ht' ht
        · rfl
  · cases i with
    | none => simp [outline, hun, hpub, unpublished]
    | some f =>
        rw [hval f]
        simp [outline]

/-- A goroutine opens a descriptor, and hands it on. -/
theorem keeps_socket (hs : Inv s) {th th' : Server.Thread} (ths : List Server.Thread)
    (hu : unpublished th' = unpublished th) (hc : Local s (.server th' (some s.next)))
    (hths : ∀ x ∈ ths, unpublished x = false ∧ Local s (.server x none)) :
    Keeps s (.server th none) s.socket
      ((ths.map fun x => .server x none) ++ [.server th' (some s.next)]) where
  inv := inv_socket hs
  loc b hb := by
    rcases List.mem_append.mp hb with hb | hb
    · obtain ⟨x, hx, rfl⟩ := List.mem_map.mp hb
      exact (hths x hx).2
    · rw [List.mem_singleton.mp hb]
      exact hc
  ledger i := by
    cases i with
    | none =>
        rw [total_append, total_map_eq_zero _ _ fun x hx => by simp [outline, (hths x hx).1]]
        simp [outline, hu, Sockets.socket]
    | some f =>
        rw [val_socket hs, total_append, total_map_eq_zero _ _ fun x _ => by simp [outline]]
        simp [outline]

private theorem keeps_runStep (hs : Inv s) {pc : RunPc} {fd : Option Nat}
    (hl : Local s (.server (.runEventLoop pc) fd)) (hb : Booked s (.server (.runEventLoop pc) fd))
    {bs : List Thread} (h : (s', bs) ∈ runStep s fd pc) :
    Keeps s (.server (.runEventLoop pc) fd) s' bs := by
  cases pc with
  | listen =>
      obtain rfl := fd_eq_none hl rfl
      simp only [runStep] at h
      split at h
      · cases List.mem_singleton.mp h
        have := keeps_giveUp hs hb rfl
        rwa [close_none] at this
      · cases List.mem_singleton.mp h
        exact keeps_on hs (fun _ => rfl) rfl rfl (local_none rfl rfl)
  | bind =>
      obtain rfl := fd_eq_none hl rfl
      simp only [runStep, List.mem_cons, List.not_mem_nil, or_false] at h
      rcases h with h | h
      · cases h
        exact keeps_socket hs [] rfl ⟨rfl, fun h => by cases h⟩ (List.forall_mem_nil _)
      · cases h
        have := keeps_giveUp hs hb rfl
        rwa [close_none] at this
  | publish =>
      simp only [runStep] at h
      split at h
      · cases h
      · split at h
        · cases List.mem_singleton.mp h
          exact keeps_giveUp hs hb rfl
        · cases List.mem_singleton.mp h
          exact keeps_lift hs hl rfl rfl rfl rfl rfl (fun h => by cases h)
  | store =>
      cases List.mem_singleton.mp h
      exact keeps_publish hs hb
  | register =>
      obtain rfl := fd_eq_none hl rfl
      obtain ⟨b, ths, hout, rfl, rfl⟩ := mem_lift h
      simp only [Server.runStep] at hout
      split at hout
      · cases hout
      · split at hout
        · cases List.mem_singleton.mp hout
          exact keeps_end hs (fun _ => rfl) rfl rfl
        · cases List.mem_singleton.mp hout
          exact keeps_lift hs hl rfl rfl rfl rfl rfl (fun h => by cases h)
  | add =>
      obtain rfl := fd_eq_none hl rfl
      obtain ⟨b, ths, hout, rfl, rfl⟩ := mem_lift h
      cases List.mem_singleton.mp hout
      exact keeps_lift hs hl rfl rfl rfl rfl rfl (fun h => by cases h)
  | launch =>
      obtain rfl := fd_eq_none hl rfl
      obtain ⟨b, ths, hout, rfl, rfl⟩ := mem_lift h
      cases List.mem_singleton.mp hout
      refine keeps_lift hs hl rfl rfl rfl rfl ?_ fun h ht => ?_
      · cases s.base.endPointType <;> rfl
      · rw [ht] at h
        cases h

/-- `run` is called: the descriptor goes to the session. -/
theorem keeps_session (hs : Inv s) {th : Server.Thread} (ths : List Server.Thread)
    {fd : Option Nat} (hl : fd = none → s.base.endPointType = .udpEndpoint)
    (hu : unpublished th = false)
    (hths : ∀ th' ∈ ths, unpublished th' = false ∧ Local s (.server th' none)) :
    Keeps s (.server th fd) (s.withBase s.base.startSession)
      ((ths.map fun th' => .server th' none) ++ [.session fd]) where
  inv := inv_withBase hs rfl rfl
  loc b hb := by
    rcases List.mem_append.mp hb with hb | hb
    · obtain ⟨th', hth', rfl⟩ := List.mem_map.mp hb
      exact (hths th' hth').2
    · rw [List.mem_singleton.mp hb]
      exact hl
  ledger i := by
    rw [val_withBase, total_append]
    cases i with
    | none =>
        rw [total_map_eq_zero _ _ fun th' hth' => by simp [outline, (hths th' hth').1]]
        simp [outline, hu]
    | some f =>
        rw [total_map_eq_zero _ _ fun th' _ => by simp [outline]]
        simp [outline]

private theorem keeps_loopStep (hs : Inv s) {pc : LoopPc} {fd : Option Nat}
    (hl : Local s (.server (.loop pc) fd)) (hb : Booked s (.server (.loop pc) fd))
    {bs : List Thread} (h : (s', bs) ∈ loopStep s fd pc) :
    Keeps s (.server (.loop pc) fd) s' bs := by
  cases pc with
  | check delay =>
      obtain ⟨b, ths, hout, rfl, rfl⟩ := mem_lift h
      simp only [Server.loopStep] at hout
      split at hout
      · cases List.mem_singleton.mp hout
        exact keeps_lift hs hl rfl rfl rfl rfl rfl fun _ => hl.2 rfl
      · split at hout <;> cases List.mem_singleton.mp hout <;>
          exact keeps_lift hs hl rfl rfl rfl rfl rfl fun _ => hl.2 rfl
  | backoff delay =>
      obtain ⟨b, ths, hout, rfl, rfl⟩ := mem_lift h
      simp only [Server.loopStep] at hout
      split at hout
      · simp only [List.mem_cons, List.not_mem_nil, or_false] at hout
        rcases hout with hout | hout <;> cases hout <;>
          exact keeps_lift hs hl rfl rfl rfl rfl rfl fun _ => hl.2 rfl
      · cases List.mem_singleton.mp hout
        exact keeps_lift hs hl rfl rfl rfl rfl rfl fun _ => hl.2 rfl
  | accept delay =>
      obtain rfl := fd_eq_none hl rfl
      have htype := hl.2 rfl
      simp only [loopStep] at h
      split at h
      · simp only [List.mem_cons, List.not_mem_nil, or_false] at h
        rcases h with h | h | h
        · cases h
          refine keeps_socket hs [] rfl ⟨?_, fun h => by cases h⟩ (List.forall_mem_nil _)
          exact (bne_iff_ne.mpr htype).symm
        · cases h
          exact keeps_on hs (fun _ => rfl) rfl rfl ⟨rfl, fun _ => htype⟩
        · cases h
          refine keeps_on (inv_close (inv_socket hs) _) (fun f => ?_) rfl rfl
            ⟨rfl, fun _ => htype⟩
          rw [val_close fun hf => by simp [Sockets.socket, Option.some.inj hf], val_socket hs]
          omega
      · cases List.mem_singleton.mp h
        exact keeps_on hs (fun _ => rfl) rfl rfl ⟨rfl, fun _ => htype⟩
  | inNewSession delay =>
      simp only [loopStep] at h
      split at h
      · next ht =>
          obtain rfl := fd_eq_none hl (by simp [carries, ht])
          simp only [List.mem_cons, List.not_mem_nil, or_false] at h
          rcases h with h | h
          · cases h
            exact keeps_on hs (fun _ => rfl) rfl rfl (local_none (by simp [carries, ht]) rfl)
          · cases h
            exact keeps_on (inv_closePkt hs rfl) (fun f => val_closePkt (hb.nonneg (some f))) rfl
              rfl (local_none rfl rfl)
      · next ht =>
          simp only [List.mem_cons, List.not_mem_nil, or_false] at h
          rcases h with h | h
          · cases h
            exact keeps_on hs (fun _ => rfl) rfl rfl ⟨hl.1, fun h => by cases h⟩
          · cases h
            refine keeps_close hs [.loop (.check (nextDelay delay))] hb rfl ?_
            intro th hth
            rw [List.mem_singleton.mp hth]
            exact ⟨rfl, rfl, fun _ => ht⟩
  | run =>
      simp only [loopStep] at h
      split at h
      · next ht =>
          obtain rfl := fd_eq_none hl (by simp [carries, ht])
          cases List.mem_singleton.mp h
          refine keeps_session hs [.loop .exit] (fun _ => ht) rfl ?_
          intro th hth
          rw [List.mem_singleton.mp hth]
          exact ⟨rfl, local_none rfl rfl⟩
      · next ht =>
          cases List.mem_singleton.mp h
          refine keeps_session hs [.loop (.check 0)] (fun hfd => ?_) rfl ?_
          · have := hl.1
            rw [hfd] at this
            exact absurd this.symm (by simp [carries]; exact ht)
          · intro th hth
            rw [List.mem_singleton.mp hth]
            exact ⟨rfl, rfl, fun _ => ht⟩
  | setServer =>
      obtain ⟨b, ths, hout, rfl, rfl⟩ := mem_lift h
      simp only [Server.loopStep] at hout
      split at hout
      · cases hout
      · cases List.mem_singleton.mp hout
        exact keeps_lift hs hl rfl rfl rfl rfl rfl fun h => by cases h
  | newSession | startServe =>
      obtain ⟨b, ths, hout, rfl, rfl⟩ := mem_lift h
      cases List.mem_singleton.mp hout
      exact keeps_lift hs hl rfl rfl rfl rfl rfl fun h => by cases h
  | serve =>
      obtain rfl := fd_eq_none hl rfl
      have hended : Keeps s (.server (.loop .serve) none)
          (s.closeStream.withBase { s.base.closeStream with serving := false })
          [.server (.loop .exit) none] :=
        keeps_on (inv_closeStream hs rfl) (fun f => val_closeStream (hb.nonneg (some f))) rfl rfl
          (local_none rfl rfl)
      simp only [loopStep] at h
      split at h
      · simp only [List.mem_cons, List.not_mem_nil, or_false] at h
        rcases h with h | h
        · cases h
          refine keeps_socket hs [.loop .serve] rfl ⟨rfl, fun h => by cases h⟩ ?_
          intro th hth
          rw [List.mem_singleton.mp hth]
          exact ⟨rfl, local_none rfl rfl⟩
        · cases h
          exact hended
      · cases List.mem_singleton.mp h
        exact hended
  | exit =>
      obtain rfl := fd_eq_none hl rfl
      obtain ⟨b, ths, hout, rfl, rfl⟩ := mem_lift h
      cases List.mem_singleton.mp hout
      exact keeps_end (inv_withBase hs rfl rfl) (fun _ => rfl) rfl rfl

private theorem keeps_connStep (hs : Inv s) {pc : ConnPc} {fd : Option Nat}
    (hl : Local s (.server (.conn pc) fd)) (hb : Booked s (.server (.conn pc) fd))
    {bs : List Thread} (h : (s', bs) ∈ connStep s fd pc) :
    Keeps s (.server (.conn pc) fd) s' bs := by
  have hgo : ∀ {b : Shared} {pc' : ConnPc}, b.endPointType = s.base.endPointType →
      b.streamListener = s.base.streamListener → b.pktListener = s.base.pktListener →
      Keeps s (.server (.conn pc) fd) (s.withBase b) [.server (.conn pc') fd] :=
    fun htype hstream hpkt =>
      keeps_lift hs hl htype hstream hpkt rfl rfl fun h => by cases h
  have hclose : Keeps s (.server (.conn pc) fd) (s.close fd) [] :=
    keeps_close hs [] hb rfl (List.forall_mem_nil _)
  cases pc with
  | idle =>
      simp only [connStep] at h
      split at h
      · cases List.mem_singleton.mp h
        exact hclose
      · simp only [List.mem_cons, List.not_mem_nil, or_false] at h
        rcases h with h | h
        · cases h
          exact hgo rfl rfl rfl
        · cases h
          exact hclose
  | isClosed =>
      obtain ⟨b, ths, hout, rfl, rfl⟩ := mem_lift h
      simp only [Server.connStep] at hout
      split at hout <;> cases List.mem_singleton.mp hout <;> exact hgo rfl rfl rfl
  | method | upgrade =>
      obtain ⟨b, ths, hout, rfl, rfl⟩ := mem_lift h
      rcases List.mem_pair.mp hout with hout | hout <;> cases hout <;> exact hgo rfl rfl rfl
  | newSession =>
      obtain ⟨b, ths, hout, rfl, rfl⟩ := mem_lift h
      cases List.mem_singleton.mp hout
      exact hgo rfl rfl rfl
  | sameAddr | inNewSession =>
      rcases List.mem_pair.mp h with h | h <;> cases h
      · exact hgo rfl rfl rfl
      · exact hclose
  | run =>
      cases List.mem_singleton.mp h
      refine keeps_session hs [] (fun hfd => ?_) rfl (List.forall_mem_nil _)
      have := hl.1
      rw [hfd] at this
      cases this

/-- A session ends, and closes its connection; that of a UDP endpoint closes the server's. -/
private theorem keeps_ended (hs : Inv s) {fd : Option Nat} (hb : Booked s (.session fd))
    {bs : List Thread} (h : (s', bs) ∈ step s (.session fd)) : Keeps s (.session fd) s' bs := by
  cases fd with
  | none =>
      cases List.mem_singleton.mp h
      refine Outline.keeps_end (inv_closePkt (b := s.base) hs rfl) fun i => ?_
      cases i with
      | none => exact Int.add_zero _
      | some f =>
          rw [val_closePkt (hb.nonneg (some f))]
          simp [outline]
  | some f =>
      cases List.mem_singleton.mp h
      refine Outline.keeps_end (inv_close hs _) fun i => ?_
      cases i with
      | none => exact Int.add_zero _
      | some g =>
          rw [val_close fun hfg => hb.isOpen (by simp [outline, own, hfg])]
          simp [outline]

private theorem keeps_step (hs : Inv s) {a : Thread} (hl : Local s a) (hb : Booked s a)
    {bs : List Thread} (h : (s', bs) ∈ step s a) : Keeps s a s' bs := by
  cases a with
  | session fd => exact keeps_ended hs hb h
  | server th fd =>
      cases th with
      | close pc => exact keeps_closeStep hs hl hb h
      | runEventLoop pc => exact keeps_runStep hs hl hb h
      | loop pc => exact keeps_loopStep hs hl hb h
      | conn pc => exact keeps_connStep hs hl hb h

end Ledger

/-! ## Every run -/

private theorem endPointType_step {s s' : Sockets} {a : Thread} {bs : List Thread}
    (h : (s', bs) ∈ step s a) : s'.base.endPointType = s.base.endPointType := by
  cases a with
  | server th fd => exact (Server.step_done (base_step h)).1
  | session fd => rw [(base_session h).1]

theorem outline_valid : outline.Valid prog where
  entry := by
    intro s a _ h
    change entry s a = true at h
    unfold entry at h
    split at h
    · exact ⟨local_none rfl rfl, fun i => by cases i <;> rfl⟩
    · cases h
  own := by
    intro s a s' bs hs hl hb h
    exact keeps_step hs hl hb h
  other := by
    intro s a b s' bs _ _ hl _ h
    have htype := endPointType_step h
    cases b <;> simpa only [outline, Local, htype] using hl

private theorem holds_reaches {t : EndPointType} {c : Conf Sockets Thread}
    (h : prog.Reaches (initial t) c) : outline.Holds c := by
  refine outline_valid.holds_run ⟨?_, ?_, ?_⟩ h
  · exact ⟨fun _ _ => rfl, fun h => absurd rfl h, fun h => absurd rfl h, fun _ => ⟨rfl, rfl⟩⟩
  · intro a ha
    rw [List.mem_singleton.mp ha]
    exact local_none rfl rfl
  · intro i
    cases i <;> rfl

/-- The descriptor in a thread's hands. -/
def Thread.fd : Thread → Option Nat
  | .server _ fd => fd
  | .session fd => fd

/-- A server whose listeners are closed has no descriptor for them. -/
theorem Inv.listenersClosed {s : Sockets} (hs : Inv s) (h : s.base.listenersClosed = true) :
    s.stream = none ∧ s.pkt = none := by
  simp only [Shared.listenersClosed, Bool.and_eq_true] at h
  constructor
  · by_contra hne
    rw [hs.stream hne] at h
    cases h.1
  · by_contra hne
    rw [hs.pkt hne] at h
    cases h.2

end Getty.Transport.ServerSockets
