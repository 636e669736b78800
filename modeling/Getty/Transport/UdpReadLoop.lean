import Getty.Transport.Basic

/-!
# The UDP receive loop

`handleUDPPackage` turns every datagram into one `Reader` call.  Unlike its TCP
and websocket siblings it tests `IsClosed` in the loop condition and returns
whatever the shared `err` variable holds at that moment, so what a closed
session reports is decided by the last round before the close.

As for TCP, the `Reader`'s answers and the limit are given by the number of the
call.  `maxMsgLen` is read without a lock, three times per datagram, and the
model lets the three reads differ.

## Main results

* `loop_open` — a run over open rounds without a fatal receive error goes on.
* `close_is_quiet_iff` — when closing the session locally is not reported.
-/

namespace Getty.Transport.Udp

variable {P : Type}

/-- `maxUDPReadBufferSize`. -/
def maxUDPReadBufferSize : Int := 64 * 1024

/-- The size of the receive buffer; the sums are taken in `int64`. -/
def udpReadBufferSize (maxMsgLen : Int) : Int :=
  if maxMsgLen ≤ 0 then maxUDPReadBufferSize
  else
    let bufferSize :=
      if maxMsgLen * 2 < maxMsgLen + maxReadBufLen then maxMsgLen * 2
      else maxMsgLen + maxReadBufLen
    if maxUDPReadBufferSize < bufferSize then maxUDPReadBufferSize else bufferSize

/-- `connectPingPackage`. -/
def connectPingPackage : Bytes := "connect-ping".toList.map (fun c => c.toNat.toUInt8)

/-- A datagram as the listener gets it; `pkg` is `none` for a nil package. -/
structure UDPContext (P : Type) where
  pkg : Option P
  peerAddr : Nat
  deriving Repr, DecidableEq

/-- What `ReadFromUDP` returns: the datagram the peer sent, or an error. -/
inductive Recv where
  | datagram (payload : Bytes) (addr : Nat)
  | failed (err : RecvErr)
  deriving Repr, DecidableEq

/-- What the loop meets at its `k`-th `Reader` call: the answer, the value of
`s.maxMsgLen` at each of its reads, and whether `addTask` finds the session
open with a listener. -/
structure Env (P : Type) where
  read : Nat → Bytes → ReadResult P
  maxMsgLen : Nat → Fin 3 → Int
  taskOpen : Nat → Bool

/-- The variables of `handleUDPPackage` that outlive a round, the number of
`Reader` calls made, and the packages that reached `OnMessage`. -/
structure State (P : Type) where
  err : Option LoopErr
  reads : Nat
  messages : List (UDPContext P)

def State.init : State P := ⟨none, 0, []⟩

/-- One turn of the loop: what `IsClosed` and `recv` answer. -/
structure Round where
  closed : Bool
  recv : Recv

/-- How far a run of the loop got. -/
inductive Outcome (P : Type) where
  | returned (err : Option LoopErr) (messages : List (UDPContext P))
  /-- All rounds are used up and the loop wants another one. -/
  | blocked (st : State P)

/-! ## The loop -/

/-- `err` after the `Reader` call number `k` and the size check. -/
def checkDatagram (env : Env P) (k : Nat) (buf : Bytes) : Option LoopErr :=
  match (env.read k buf).err with
  | some msg => some (.reader msg)
  | none =>
      if 0 < env.maxMsgLen k 0 ∧ env.maxMsgLen k 1 < buf.length then
        some (.messageTooLong buf.length (env.maxMsgLen k 2))
      else none

/-- The datagram is decoded, being neither empty nor a connect ping. -/
def Decodes (buf : Bytes) : Prop := buf ≠ [] ∧ buf ≠ connectPingPackage

instance (buf : Bytes) : Decidable (Decodes buf) := inferInstanceAs (Decidable (_ ∧ _))

/-- One round after `recv` stored `buf` without an error. -/
def handleDatagram (env : Env P) (buf : Bytes) (addr : Nat) (st : State P) : State P :=
  if Decodes buf then
    let r := env.read st.reads buf
    match checkDatagram env st.reads buf with
    | some e => { st with err := some e, reads := st.reads + 1 }
    | none =>
        if r.pkgLen = 0 then { st with err := none, reads := st.reads + 1 }
        else
          { err := none, reads := st.reads + 1
            messages := addTask (env.taskOpen st.reads) ⟨r.pkg, addr⟩ st.messages }
  else { st with err := none }

/-- `for !s.IsClosed() { ... }` with a receive buffer of `size` bytes, which
cuts off what does not fit. -/
def loop (env : Env P) (size : Nat) : List Round → State P → Outcome P
  | [], st => .blocked st
  | r :: rs, st =>
      if r.closed then .returned st.err st.messages
      else
        match r.recv with
        | .failed .timeout => loop env size rs { st with err := some (.recv .timeout) }
        | .failed err => .returned (some (.connRead err)) st.messages
        | .datagram payload addr =>
            loop env size rs (handleDatagram env (payload.take size) addr st)

/-- `handleUDPPackage`; `maxMsgLen` is the limit when the loop starts. -/
def handleUDPPackage (env : Env P) (maxMsgLen : Int) (rounds : List Round) : Outcome P :=
  loop env (udpReadBufferSize maxMsgLen).toNat rounds State.init

/-- A datagram that was given to `addTask`, and the number of its `Reader` call. -/
structure Dispatch where
  call : Nat
  payload : Bytes
  addr : Nat
  deriving Repr, DecidableEq

/-- The package was decoded from a complete datagram within the limit in force, which is
the one that the size check of its round reads. -/
def Dispatch.Whole (limit : Nat → Fin 3 → Int) (size : Nat) (d : Dispatch) : Prop :=
  d.payload.take size = d.payload ∧
    (limit d.call 0 ≤ 0 ∨ (d.payload.length : Int) ≤ limit d.call 1)

/-! ## Runs over open rounds -/

/-- The receive results of a session that is not closed and whose socket does
not fail: datagrams and timeouts. -/
def Benign (xs : List Recv) : Prop := ∀ x ∈ xs, ∀ e, x = .failed e → e = .timeout

/-- One open round. -/
def State.after (env : Env P) (size : Nat) (st : State P) : Recv → State P
  | .failed e => { st with err := some (.recv e) }
  | .datagram payload addr => handleDatagram env (payload.take size) addr st

/-- **Run lemma.**  Over open rounds without a fatal receive error the loop
goes on with the state the rounds leave. -/
theorem loop_open (env : Env P) (size : Nat) (xs : List Recv) (rs : List Round) (st : State P)
    (h : Benign xs) :
    loop env size (xs.map (Round.mk false) ++ rs) st =
      loop env size rs (xs.foldl (State.after env size) st) := by
  induction xs generalizing st with
  | nil => rfl
  | cons x xs ih =>
      have hxs : Benign xs := fun y hy => h y (List.mem_cons_of_mem x hy)
      rw [List.foldl_cons, ← ih _ hxs]
      cases x with
      | datagram payload addr => rfl
      | failed e =>
          obtain rfl := h (.failed e) (List.mem_cons_self ..) e rfl
          rfl

/-- The datagrams that reach the `Reader`. -/
def decoded (size : Nat) (xs : List Recv) : Nat :=
  xs.countP (fun x => match x with
    | .datagram payload _ => decide (Decodes (payload.take size))
    | .failed _ => false)

theorem handleDatagram_reads (env : Env P) (buf : Bytes) (addr : Nat) (st : State P) :
    (handleDatagram env buf addr st).reads = st.reads + if Decodes buf then 1 else 0 := by
  unfold handleDatagram
  split
  · cases checkDatagram env st.reads buf with
    | some e => rfl
    | none => dsimp only; split <;> rfl
  · rfl

private theorem handleDatagram_err (env : Env P) (buf : Bytes) (addr : Nat) (st : State P) :
    (handleDatagram env buf addr st).err =
      if Decodes buf then checkDatagram env st.reads buf else none := by
  unfold handleDatagram
  split
  · cases checkDatagram env st.reads buf with
    | some e => rfl
    | none => dsimp only; split <;> rfl
  · rfl

/-- The number of `Reader` calls after some rounds. -/
private theorem foldl_after_reads (env : Env P) (size : Nat) (xs : List Recv) (st : State P) :
    (xs.foldl (State.after env size) st).reads = st.reads + decoded size xs := by
  induction xs generalizing st with
  | nil => rfl
  | cons x xs ih =>
      rw [List.foldl_cons, ih]
      cases x with
      | failed e => simp [State.after, decoded]
      | datagram payload addr =>
          simp only [State.after, handleDatagram_reads, decoded, List.countP_cons,
            decide_eq_true_eq]
          omega

/-! ## Closing the session -/

/-- The session is closed after some rounds: the loop returns, and
`handlePackage` does not invoke `OnError`. -/
def ClosesQuietly (env : Env P) (maxMsgLen : Int) (xs : List Recv) : Prop :=
  ∀ x post, ∃ err messages,
    handleUDPPackage env maxMsgLen (xs.map (Round.mk false) ++ ⟨true, x⟩ :: post) =
      .returned err messages ∧
    ∀ e, ShutdownEvent.onError e ∉ handlePackageExit true err

/-- A round that leaves the shared `err` variable nil, when `k` datagrams were
decoded before it. -/
def LeavesNoErr (env : Env P) (size k : Nat) : Recv → Prop
  | .failed _ => False
  | .datagram payload _ =>
      Decodes (payload.take size) → checkDatagram env k (payload.take size) = none

/-- **A local close is quiet** exactly when nothing was received before it, or
the last thing received was neither a timeout nor a datagram that the `Reader`
or the size check rejected. -/
theorem close_is_quiet_iff (env : Env P) (maxMsgLen : Int) (xs : List Recv) (h : Benign xs) :
    ClosesQuietly env maxMsgLen xs ↔
      ∀ pre last, xs = pre ++ [last] →
        LeavesNoErr env (udpReadBufferSize maxMsgLen).toNat
          (decoded (udpReadBufferSize maxMsgLen).toNat pre) last := by
  obtain ⟨size, hsize⟩ : ∃ size, size = (udpReadBufferSize maxMsgLen).toNat := ⟨_, rfl⟩
  rw [← hsize]
  have hquiet : ClosesQuietly env maxMsgLen xs ↔
      (xs.foldl (State.after env size) State.init).err = none := by
    simp only [ClosesQuietly, handleUDPPackage, ← hsize, loop_open env size xs _ _ h, loop,
      if_true, Outcome.returned.injEq]
    constructor
    · intro hq
      obtain ⟨err, messages, ⟨rfl, -⟩, hnone⟩ := hq (.failed .timeout) []
      exact (onError_not_mem_handlePackageExit _).mp hnone
    · intro hnone x post
      exact ⟨_, _, ⟨rfl, rfl⟩, (onError_not_mem_handlePackageExit _).mpr hnone⟩
  rw [hquiet]
  rcases List.eq_nil_or_concat xs with rfl | ⟨pre, last, rfl⟩
  · simp [State.init]
  · rw [List.concat_eq_append, List.foldl_append, List.foldl_cons, List.foldl_nil]
    have hlast : ((pre.foldl (State.after env size) State.init).after env size last).err = none ↔
        LeavesNoErr env size (decoded size pre) last := by
      cases last with
      | failed e => simp [State.after, LeavesNoErr]
      | datagram payload addr =>
          have hreads := foldl_after_reads env size pre State.init
          simp only [State.init, Nat.zero_add] at hreads
          simp only [State.after, handleDatagram_err, LeavesNoErr, State.init, hreads]
          split <;> simp_all
    rw [hlast]
    constructor
    · intro hl pre' last' heq
      obtain ⟨rfl, hlast'⟩ := List.append_inj' heq rfl
      cases hlast'
      exact hl
    · intro hl
      exact hl pre last rfl

/-- A `Reader` that takes the first byte of a datagram, on an open session
without a limit. -/
def byteEnv : Env UInt8 where
  read _ data := ⟨data.head?, data.length, none⟩
  maxMsgLen _ _ := 0
  taskOpen _ := true

/-- A timeout and then an accepted datagram: closing is quiet. -/
theorem close_is_quiet_after_datagram :
    Benign [.failed .timeout, .datagram [7] 1] ∧
      ClosesQuietly byteEnv 0 [.failed .timeout, .datagram [7] 1] := by
  have h : Benign [.failed .timeout, .datagram [7] 1] := by
    intro x hx e he
    simp only [List.mem_cons, List.not_mem_nil, or_false] at hx
    rcases hx with rfl | rfl
    · cases he; rfl
    · cases he
  refine ⟨h, (close_is_quiet_iff byteEnv 0 _ h).mpr ?_⟩
  intro pre last heq
  have heq' : [Recv.failed .timeout] ++ [Recv.datagram [7] 1] = pre ++ [last] := heq
  obtain ⟨rfl, hlast⟩ := List.append_inj' heq' rfl
  cases hlast
  exact fun _ => rfl

/-- The timeout that `stop` arms to wake the reader is itself reported: after
one timeout and the close the loop returns it, and `OnError` is invoked. -/
theorem close_after_timeout_reported :
    Benign [.failed .timeout] ∧ ¬ ClosesQuietly byteEnv 0 [.failed .timeout] ∧
      handleUDPPackage byteEnv 0 [⟨false, .failed .timeout⟩, ⟨true, .failed .timeout⟩] =
        .returned (some (.recv .timeout)) [] ∧
      handlePackageExit true (some (.recv .timeout)) =
        [.stop, .onError (.recv .timeout), .onClose, .gc] := by
  refine ⟨?_, ?_, rfl, rfl⟩
  · intro x hx e he
    rw [List.mem_singleton.mp hx] at he
    cases he
    rfl
  · intro hq
    obtain ⟨err, messages, hrun, hnone⟩ := hq (.failed .timeout) []
    cases hrun
    exact hnone (.recv .timeout) (by decide)

end Getty.Transport.Udp
