import Getty.Echo.Package
import Getty.Transport.TcpLink

/-!
# The echo client and the echo server

A client session and the server session at the other end of the connection, with the
handlers of the echo example.  The client's goroutines call `WritePkg` with packages of the
echo format.  The server's receive loop hands what it decodes to `OnMessage`, which looks
up the handler of the command; both handlers write the package back as it is, on a
goroutine of the task pool or on the one of the loop.

A state of the system is a link in each direction.  An event is one step of one party, or
of the network; the events come in any order.  No write fails and nobody closes a session.

## Main results

* `sound_step` — every event keeps both links sound, and the answers those of the requests.
* `echo_answers` — every request with a known command is answered once, with itself.
-/

namespace Getty.Echo

open Getty.Transport Getty.Transport.Channel Getty.Verified.ThreadPool

/-! ## The client's packages -/

/-- The commands. -/
def heartbeatCmd : UInt32 := 0

def echoCmd : UInt32 := 1

/-- The bytes of "ping". -/
def echoHeartbeatRequestString : Bytes := [0x70, 0x69, 0x6e, 0x67]

/-- `WritePkgTimeout`, in nanoseconds. -/
def writePkgTimeout : Int := 100000000

/-- The package of `EchoClient.heartbeat`. -/
def heartbeatPkg (logID sequence : UInt32) : EchoPackage where
  h := ⟨echoPkgMagic, logID, sequence, 0, heartbeatCmd, 0,
    UInt16.ofNat (echoHeartbeatRequestString.length + 1)⟩
  b := echoHeartbeatRequestString

/-- The package of `echo`, for the configured `EchoString`. -/
def echoPkg (echoString : Bytes) (logID sequence : UInt32) : EchoPackage where
  h := ⟨echoPkgMagic, logID, sequence, 0, echoCmd, 0, UInt16.ofNat echoString.length + 1⟩
  b := echoString

theorem heartbeatPkg_legal (logID sequence : UInt32) : (heartbeatPkg logID sequence).Legal where
  magic := rfl
  short := show 4 ≤ 255 by decide
  len := rfl

/-- The limit on the configured string; `uint16` wraps only far beyond it. -/
private theorem echoPkg_legal {echoString : Bytes} (h : echoString.length ≤ 255)
    (logID sequence : UInt32) : (echoPkg echoString logID sequence).Legal where
  magic := rfl
  short := h
  len := by
    have h1 : (1 : UInt16).toNat = 1 := rfl
    simp only [echoPkg, UInt16.toNat_add, UInt16.toNat_ofNat', h1]
    omega

/-! ## The server's handlers -/

/-- `HeartbeatHandler.Handle`.  It builds a response with the string "pong", and then
writes the request. -/
def heartbeatHandle (pkg : EchoPackage) : Request EchoPackage := .writePkg pkg writePkgTimeout

/-- `MessageHandler.Handle`. -/
def messageHandle (pkg : EchoPackage) : Request EchoPackage := .writePkg pkg writePkgTimeout

/-- The map `handlers` of `newEchoMessageHandler`. -/
def handlers (command : UInt32) : Option (EchoPackage → Request EchoPackage) :=
  if command = heartbeatCmd then some heartbeatHandle
  else if command = echoCmd then some messageHandle
  else none

/-- The write call of `OnMessage`, if the command has a handler. -/
def onMessage (pkg : EchoPackage) : Option (Request EchoPackage) :=
  match handlers pkg.h.command with
  | none => none
  | some handle => some (handle pkg)

/-- The packages that the server answers. -/
def Known (pkg : EchoPackage) : Bool := (handlers pkg.h.command).isSome

private theorem onMessage_eq (pkg : EchoPackage) :
    onMessage pkg = if Known pkg then some (.writePkg pkg writePkgTimeout) else none := by
  by_cases h0 : pkg.h.command = heartbeatCmd
  · simp [onMessage, Known, handlers, h0, heartbeatHandle]
  · by_cases h1 : pkg.h.command = echoCmd
    · have hne : echoCmd ≠ heartbeatCmd := by decide
      simp [onMessage, Known, handlers, h1, hne, messageHandle]
    · simp [onMessage, Known, handlers, h0, h1]

/-- The packages of the answers. -/
theorem packages_onMessage (ps : List EchoPackage) :
    (ps.filterMap onMessage).flatMap Request.packages = ps.filter Known := by
  induction ps with
  | nil => rfl
  | cons p ps ih =>
      rw [List.filterMap_cons, List.filter_cons, onMessage_eq]
      cases Known p with
      | true => simpa [Request.packages] using ih
      | false => simpa using ih

/-! ## The system -/

/-- From the client to the server, or back. -/
inductive Direction where
  | up
  | down
  deriving Repr, DecidableEq

/-- For each direction, the connection as the writing side sees it, and the limit of the
receiving side. -/
structure Cfg where
  conn : Direction → WriteStream.Cfg
  maxMsgLen : Direction → Int

/-- The link with the requests and the link with the answers. -/
structure System where
  up : Link EchoPackage
  down : Link EchoPackage

def System.init : System := ⟨.init, .init⟩

def System.link (s : System) : Direction → Link EchoPackage
  | .up => s.up
  | .down => s.down

def System.set (s : System) : Direction → Link EchoPackage → System
  | .up, l => { s with up := l }
  | .down, l => { s with down := l }

inductive Event where
  /-- A goroutine of the client calls `WritePkg`. -/
  | request (p : EchoPackage)
  /-- A write call takes a step. -/
  | write (d : Direction) (i j : Nat)
  /-- A receive loop gets some of the bytes on their way, or a timeout. -/
  | recv (d : Direction) (n : Option Nat)

/-- The calls that `OnMessage` makes for the packages that a turn of the loop dispatches. -/
def replies (before after : Link EchoPackage) : List (Request EchoPackage) :=
  (after.messages.drop before.messages.length).filterMap onMessage

def System.step (cfg : Cfg) (s : System) : Event → Option System
  | .request p => some { s with up := s.up.call echoPkgHandler (.writePkg p writePkgTimeout) }
  | .write d i j => ((s.link d).write (cfg.conn d) i j).map (s.set d)
  | .recv .up n =>
      (s.up.recv echoPkgHandler (cfg.maxMsgLen .up) n).map fun l =>
        ⟨l, (replies s.up l).foldl (Link.call echoPkgHandler) s.down⟩
  | .recv .down n => (s.down.recv echoPkgHandler (cfg.maxMsgLen .down) n).map (s.set .down)

def System.run (cfg : Cfg) (s : System) : List Event → Option System
  | [] => some s
  | e :: es => (s.step cfg e).bind fun s' => s'.run cfg es

theorem run_append (cfg : Cfg) (s : System) (es es' : List Event) :
    s.run cfg (es ++ es') = (s.run cfg es).bind fun s' => s'.run cfg es' := by
  induction es generalizing s with
  | nil => rfl
  | cons e es ih =>
      rw [List.cons_append, System.run, System.run]
      cases s.step cfg e with
      | none => rfl
      | some s' => exact ih s'

def Event.sent : Event → List EchoPackage
  | .request p => [p]
  | .write _ _ _ => []
  | .recv _ _ => []

/-- The packages that the client has asked to be written. -/
def sent (es : List Event) : List EchoPackage := es.flatMap Event.sent

theorem sent_append (es es' : List Event) : sent (es ++ es') = sent es ++ sent es' :=
  List.flatMap_append

/-! ## The invariant -/

/-- The package is legal, and no longer than either limit allows. -/
def Cfg.Allows (cfg : Cfg) (p : EchoPackage) : Prop :=
  ∀ d, echoPkgHandler.Fits (cfg.maxMsgLen d) p

private theorem allows_of_length {cfg : Cfg} {p : EchoPackage} (hp : p.Legal)
    (h : ∀ d, cfg.maxMsgLen d ≤ 0 ∨
      (echoPkgHeaderLen + (p.b.length + 1) : Nat) ≤ cfg.maxMsgLen d) : cfg.Allows p := by
  intro d
  refine ⟨hp, ?_⟩
  have hd := h d
  rw [← length_marshal] at hd
  exact hd

/-- What holds of the system all the time, when the client has sent `ps`. -/
structure System.Sound (cfg : Cfg) (ps : List EchoPackage) (s : System) : Prop where
  link : ∀ d, (s.link d).Sound echoPkgHandler (cfg.maxMsgLen d) (cfg.conn d)
  requests : s.up.requests.flatMap Request.packages = ps
  allowed : ∀ p ∈ ps, cfg.Allows p
  replies : s.down.requests = s.up.messages.filterMap onMessage

private theorem sound_init (cfg : Cfg) : System.init.Sound cfg [] where
  link d := by cases d <;> exact Channel.sound_init
  requests := rfl
  allowed := List.forall_mem_nil _
  replies := rfl

private theorem calls_requests (l : Link EchoPackage) (qs : List (Request EchoPackage)) :
    (qs.foldl (Link.call echoPkgHandler) l).requests = l.requests ++ qs := by
  induction qs generalizing l with
  | nil => simp
  | cons q qs ih =>
      rw [List.foldl_cons, ih]
      simp [Link.call]

private theorem sound_calls {maxMsgLen : Int} {cfg : WriteStream.Cfg} {l : Link EchoPackage}
    (h : l.Sound echoPkgHandler maxMsgLen cfg) {qs : List (Request EchoPackage)}
    (hqs : ∀ p ∈ qs.flatMap Request.packages, echoPkgHandler.Fits maxMsgLen p) :
    (qs.foldl (Link.call echoPkgHandler) l).Sound echoPkgHandler maxMsgLen cfg := by
  induction qs generalizing l with
  | nil => exact h
  | cons q qs ih =>
      rw [List.flatMap_cons] at hqs
      rw [List.foldl_cons]
      exact ih (sound_call h fun p hp => hqs p (List.mem_append_left _ hp))
        fun p hp => hqs p (List.mem_append_right _ hp)

section Invariant

variable {cfg : Cfg} {ps : List EchoPackage} {s s' : System}

private theorem sound_set {d : Direction} {l : Link EchoPackage} (h : s.Sound cfg ps)
    (hl : l.Sound echoPkgHandler (cfg.maxMsgLen d) (cfg.conn d))
    (hreq : l.requests = (s.link d).requests)
    (hmsg : d = .up → l.messages = s.up.messages) : (s.set d l).Sound cfg ps := by
  cases d with
  | up =>
      refine ⟨fun d => ?_, by rw [← h.requests]; exact congrArg _ hreq, h.allowed, ?_⟩
      · cases d with
        | up => exact hl
        | down => exact h.link .down
      · exact h.replies.trans (congrArg _ (hmsg rfl).symm)
  | down =>
      refine ⟨fun d => ?_, h.requests, h.allowed, hreq.trans h.replies⟩
      cases d with
      | up => exact h.link .up
      | down => exact hl

/-- **Step lemma.**  Every event keeps the invariant. -/
theorem sound_step (h : s.Sound cfg ps) {e : Event}
    (hallow : ∀ p ∈ e.sent, cfg.Allows p) (hstep : s.step cfg e = some s') :
    s'.Sound cfg (ps ++ e.sent) := by
  cases e with
  | request p =>
      cases hstep
      refine ⟨fun d => ?_, ?_, ?_, h.replies⟩
      · cases d with
        | up =>
            refine sound_call (h.link .up) fun q hq => ?_
            rw [List.mem_singleton.mp hq]
            exact hallow p (List.mem_singleton_self p) .up
        | down => exact h.link .down
      · simp only [Link.call, List.flatMap_append, h.requests]
        rfl
      · intro q hq
        rcases List.mem_append.mp hq with hq | hq
        · exact h.allowed q hq
        · exact hallow q hq
  | write d i j =>
      simp only [System.step, Option.map_eq_some_iff] at hstep
      obtain ⟨l, hl, rfl⟩ := hstep
      have hconf : ∃ conf, l = { s.link d with conf := conf } := by
        simp only [Link.write] at hl
        split at hl
        · exact ⟨_, (Option.some.inj hl).symm⟩
        · cases hl
      obtain ⟨conf, rfl⟩ := hconf
      rw [Event.sent, List.append_nil]
      exact sound_set h (sound_write (h.link d) hl) rfl fun hd => by subst hd; rfl
  | recv d n =>
      rw [Event.sent, List.append_nil]
      obtain ⟨l, hl, hsound, hreq, -, -, hmsg⟩ := sound_recv (h.link d) n
      cases d with
      | up =>
          simp only [System.step, Option.map_eq_some_iff] at hstep
          obtain ⟨l', hl', rfl⟩ := hstep
          cases hl.symm.trans hl'
          obtain ⟨new, hnew⟩ := hmsg
          have hreplies : replies s.up l = new.filterMap onMessage := by
            rw [replies, ← hnew]
            simp [System.link]
          -- the packages of the answers are among those that were dispatched
          have hfits : ∀ p ∈ (replies s.up l).flatMap Request.packages,
              echoPkgHandler.Fits (cfg.maxMsgLen .down) p := by
            intro p hp
            rw [hreplies, packages_onMessage] at hp
            have hp : p ∈ l.messages := by
              rw [← hnew]
              exact List.mem_append_right _ (List.mem_filter.mp hp).1
            have hp := hsound.dispatched.1.subset hp
            rw [hreq] at hp
            exact h.allowed p (h.requests ▸ hp) .down
          refine ⟨fun d => ?_, by rw [← h.requests]; exact congrArg _ hreq, h.allowed, ?_⟩
          · cases d with
            | up => exact hsound
            | down => exact sound_calls (h.link .down) hfits
          · rw [calls_requests, h.replies, hreplies, ← List.filterMap_append]
            exact congrArg _ hnew
      | down =>
          simp only [System.step, Option.map_eq_some_iff] at hstep
          obtain ⟨l', hl', rfl⟩ := hstep
          cases hl.symm.trans hl'
          exact sound_set h hsound hreq fun hd => by cases hd

/-- **Run lemma.** -/
theorem sound_run (h : s.Sound cfg ps) {es : List Event}
    (hallow : ∀ p ∈ sent es, cfg.Allows p) (hrun : s.run cfg es = some s') :
    s'.Sound cfg (ps ++ sent es) := by
  induction es generalizing s ps with
  | nil =>
      cases hrun
      simpa [sent] using h
  | cons e es ih =>
      rw [System.run] at hrun
      obtain ⟨s₁, hstep, hrest⟩ := Option.bind_eq_some_iff.mp hrun
      have hcons : sent (e :: es) = e.sent ++ sent es := rfl
      rw [hcons] at hallow ⊢
      rw [← List.append_assoc]
      exact ih (sound_step h (fun p hp => hallow p (List.mem_append_left _ hp)) hstep)
        (fun p hp => hallow p (List.mem_append_right _ hp)) hrest

/-- Everything has been written and has arrived. -/
def System.Quiet (s : System) : Prop :=
  ∀ d, (s.link d).conf.pool = [] ∧ (s.link d).got = (s.link d).conf.shared.stream

/-- The answers that have arrived. -/
theorem System.Sound.answers (h : s.Sound cfg ps) :
    s.up.messages.Subperm ps ∧ s.down.messages.Subperm (ps.filter Known) ∧
      (s.Quiet → s.down.messages.Perm (ps.filter Known)) := by
  have hup := (h.link .up).dispatched
  have hdown := (h.link .down).dispatched
  simp only [System.link, h.requests] at hup
  simp only [System.link, h.replies, packages_onMessage] at hdown
  refine ⟨hup.1, hdown.1.trans (hup.1.filter _), fun hq => ?_⟩
  exact (hdown.2 (hq .down).1 (hq .down).2).trans ((hup.2 (hq .up).1 (hq .up).2).filter _)

/-! ## Nothing is stuck -/

/-- The write calls of one direction run. -/
private theorem run_writes (s : System) (d : Direction)
    {c : Conf WriteStream.Shared WriteStream.Thread}
    (hrun : (WriteStream.prog (cfg.conn d)).Reaches (s.link d).conf c) :
    ∃ es, s.run cfg es = some (s.set d { s.link d with conf := c }) ∧ sent es = [] := by
  refine hrun.induct (fun c => ∃ es, s.run cfg es = some (s.set d { s.link d with conf := c }) ∧
    sent es = []) ⟨[], by cases d <;> rfl, rfl⟩ ?_
  rintro c c' m ⟨es, hes, hsent⟩ hm
  have hclosed : Closed (WriteStream.prog (cfg.conn d)) := fun _ _ => rfl
  obtain ⟨i, j, rfl⟩ := hclosed.fires hm
  refine ⟨es ++ [.write d i j], ?_, by rw [sent_append, hsent]; rfl⟩
  rw [run_append, hes, Option.bind_some]
  cases d <;> simp [System.run, System.step, System.link, System.set, Link.write] at hm ⊢ <;>
    simp [hm]

/-- A receive loop can always take its turn. -/
private theorem step_recv (h : s.Sound cfg ps) (d : Direction) (n : Option Nat) :
    ∃ s', s.step cfg (.recv d n) = some s' ∧ (s'.link d).conf = (s.link d).conf ∧
      (s'.link d).got = (s.link d).got ++ ((s.link d).chunk n).data ∧
      (d = .down → s'.up = s.up) := by
  obtain ⟨l, hl, -, -, hconf, hgot, -⟩ := sound_recv (h.link d) n
  cases d with
  | up =>
      refine ⟨⟨l, (replies s.up l).foldl (Link.call echoPkgHandler) s.down⟩, ?_, hconf, hgot,
        by simp⟩
      rw [System.step, show s.up = s.link .up from rfl, hl]
      rfl
  | down =>
      refine ⟨s.set .down l, ?_, hconf, hgot, fun _ => rfl⟩
      rw [System.step, show s.down = s.link .down from rfl, hl]
      rfl

/-- One direction gets everything across. -/
private theorem run_direction (h : s.Sound cfg ps) (d : Direction) :
    ∃ es s', s.run cfg es = some s' ∧ sent es = [] ∧ s'.Sound cfg ps ∧
      ((s'.link d).conf.pool = [] ∧ (s'.link d).got = (s'.link d).conf.shared.stream) ∧
      (d = .down → s'.up = s.up) := by
  obtain ⟨c, hreach, hpool⟩ := (h.link d).completes
  obtain ⟨es, hes, hsent⟩ := run_writes s d hreach
  have hwritten := sound_run h (by rw [hsent]; exact List.forall_mem_nil _) hes
  rw [hsent, List.append_nil] at hwritten
  have hlink : (s.set d { s.link d with conf := c }).link d = { s.link d with conf := c } := by
    cases d <;> rfl
  -- the receive loop reads all that is on its way
  obtain ⟨rest, hrest⟩ := (hwritten.link d).got
  obtain ⟨s', hstep, hconf, hgot, hsame⟩ := step_recv hwritten d (some rest.length)
  have hrun : s.run cfg (es ++ [.recv d (some rest.length)]) = some s' := by
    rw [run_append, hes, Option.bind_some, System.run, hstep]
    rfl
  have hnone : sent (es ++ [.recv d (some rest.length)]) = [] := by
    rw [sent_append, hsent]
    rfl
  have hsound := sound_run h (by rw [hnone]; exact List.forall_mem_nil _) hrun
  rw [hnone, List.append_nil] at hsound
  refine ⟨_, s', hrun, hnone, hsound, ⟨?_, ?_⟩, fun hd => (hsame hd).trans ?_⟩
  · rw [hconf, hlink]
    exact hpool
  · rw [hgot, hconf, ← hrest]
    simp [Link.chunk, Link.pending, ← hrest]
  · subst hd
    rfl

/-- The system can become quiet without a new request. -/
private theorem run_quiet (h : s.Sound cfg ps) :
    ∃ es s', s.run cfg es = some s' ∧ sent es = [] ∧ s'.Sound cfg ps ∧ s'.Quiet := by
  obtain ⟨es₁, s₁, hrun₁, hsent₁, hsound₁, hup, -⟩ := run_direction h .up
  obtain ⟨es₂, s₂, hrun₂, hsent₂, hsound₂, hdown, hsame⟩ := run_direction hsound₁ .down
  refine ⟨es₁ ++ es₂, s₂, ?_, by rw [sent_append, hsent₁, hsent₂]; rfl, hsound₂, fun d => ?_⟩
  · rw [run_append, hrun₁, Option.bind_some, hrun₂]
  · cases d with
    | up =>
        rw [show s₂.link .up = s₁.link .up from hsame rfl]
        exact hup
    | down => exact hdown

/-- **The server echoes.**  A client sends any legal packages within the limits; the write
calls of both sides, the two receive loops and the network take their steps in any order.
At any time both loops are running, and the answers that have arrived are requests with a
known command, unchanged, none of them twice.  From there the system can get, without a new
request, to a state in which everything is written and has arrived; and in every such state
the requests with a known command have all been answered, each of them once. -/
theorem echo_answers (cfg : Cfg) (es : List Event) (hallow : ∀ p ∈ sent es, cfg.Allows p)
    (s : System)
    (hrun : System.init.run cfg es = some s) :
    (∀ d, ∃ st, (s.link d).loop = .blocked st) ∧
    s.up.messages.Subperm (sent es) ∧ s.down.messages.Subperm ((sent es).filter Known) ∧
    (s.Quiet → s.down.messages.Perm ((sent es).filter Known)) ∧
    ∃ es' s', s.run cfg es' = some s' ∧ sent es' = [] ∧ s'.Quiet ∧
      s'.down.messages.Perm ((sent es).filter Known) := by
  have h : s.Sound cfg (sent es) := sound_run (sound_init cfg) hallow hrun
  obtain ⟨hup, hdown, hall⟩ := h.answers
  obtain ⟨es', s', hrun', hsent', hsound', hquiet⟩ := run_quiet h
  refine ⟨fun d => ?_, hup, hdown, hall, es', s', hrun', hsent', hquiet,
    hsound'.answers.2.2 hquiet⟩
  obtain ⟨st, -, hloop, -⟩ := (h.link d).received
  exact ⟨st, hloop⟩

end Invariant

/-- Plain TCP with the limit of the example profiles. -/
def plain : Cfg := ⟨fun _ => ⟨true, false⟩, fun _ => 128⟩

/-- A heartbeat and an echo request; the heartbeat has been written and has arrived in two
pieces. -/
def twoRequests : List Event :=
  [.request (heartbeatPkg 7 1), .request (echoPkg [104, 105] 8 2), .write .up 0 0, .write .up 0 0,
    .write .up 0 0, .recv .up (some 20), .recv .up (some 100)]

/-- The server has got the heartbeat, and both requests can be answered. -/
theorem echo_answers_two :
    ∃ s, System.init.run plain twoRequests = some s ∧ s.up.messages = [heartbeatPkg 7 1] ∧
      s.down.messages = [] ∧
      ∃ es' s', s.run plain es' = some s' ∧ sent es' = [] ∧ s'.Quiet ∧
        s'.down.messages.Perm [heartbeatPkg 7 1, echoPkg [104, 105] 8 2] := by
  obtain ⟨s, hrun⟩ : ∃ s, System.init.run plain twoRequests = some s := ⟨_, rfl⟩
  have hmain := echo_answers plain twoRequests (by
    rintro p (_ | ⟨_, _ | ⟨_, hp⟩⟩)
    · exact allows_of_length (heartbeatPkg_legal 7 1) fun _ =>
        Or.inr (show (37 : Int) ≤ 128 by decide)
    · exact allows_of_length (echoPkg_legal (by decide) 8 2) fun _ =>
        Or.inr (show (35 : Int) ≤ 128 by decide)
    · cases hp) s hrun
  have hup : (System.init.run plain twoRequests).map (fun s => (s.up.messages, s.down.messages)) =
      some ([heartbeatPkg 7 1], []) := by decide +kernel
  rw [hrun, Option.map_some, Option.some.injEq, Prod.mk.injEq] at hup
  exact ⟨s, hrun, hup.1, hup.2, hmain.2.2.2.2⟩

end Getty.Echo
