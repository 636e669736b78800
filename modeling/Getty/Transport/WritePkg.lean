import Getty.Transport.Basic
import Getty.Verified.Deferred

/-!
# The deferred calls of `WritePkg`

`WritePkg` joins the session's lifecycle, encodes the package under `callbackDepth`, takes
`packetLock` in one of two modes, overwrites the write timeout for the time of the send, and
sends.  Each of these is taken back by a deferred call, and a panic of the `Writer` or of the
connection is recovered in between.

The model is the function as it stands, as a statement with deferred calls on the session and
the function's own variables.  What a call meets is arbitrary: the answers of `IsClosed` and of
the lifecycle, the connection, and how the `Writer` and `conn.Send` end.  A package that is a
pointer comes with the object that it points to, since `WritePkg` stores the encoded bytes there.

The fields `handed` and `sent` are ghosts: the packages given to the `Writer`, and the arguments
of `conn.Send`.

## Main results

* `writePkg_spec` — what a call does, in one statement.
* `writePkg_balanced` — a call returns, and leaves the session's books as they were.
* `package_kept_iff` — when the caller's package survives a number of calls.
-/

namespace Getty.Transport.WritePkg

open Getty.Verified.Deferred Getty.Verified.Deferred.Stmt

variable {V : Type}

/-! ## Data -/

/-- What an `any` holds here: an application value, or a byte slice. -/
inductive Body (V : Type) where
  | value (v : V)
  | bytes (b : Bytes)
  deriving Repr, DecidableEq

structure UDPContext (V : Type) where
  pkg : Body V
  peerAddr : Option Nat
  deriving Repr, DecidableEq

/-- The caller's package; a pointer comes with the object it points to. -/
inductive Pkg (V : Type) where
  | nil
  | plain (body : Body V)
  | context (ctx : UDPContext V)
  | pointer (ctx : Option (UDPContext V))
  deriving Repr, DecidableEq

/-- The argument of `conn.Send`. -/
inductive Arg (V : Type) where
  | bytes (b : Bytes)
  | context (ctx : UDPContext V)
  deriving Repr, DecidableEq

/-- How `writer.Write` ends. -/
inductive Encoded where
  | bytes (b : Bytes)
  | failed (b : Bytes) (msg : String)
  | panics
  deriving Repr, DecidableEq

/-- How `conn.Send` ends. -/
inductive Sent where
  | ok (n : Nat)
  | failed (n : Nat) (msg : String)
  | panics
  deriving Repr, DecidableEq

/-- The errors: `@pkg is nil`, `ErrSessionClosed`, a recovered panic, an error of the `Writer`,
the websocket limit, and an error of the connection. -/
inductive Err where
  | nilPkg
  | sessionClosed
  | panicked
  | writer (msg : String)
  | tooLarge (n : Nat) (limit : Int)
  | conn (msg : String)
  deriving Repr, DecidableEq

/-- `s.lifecycle`: nil, closed, or open. -/
inductive Lifecycle where
  | absent
  | closed
  | opened
  deriving Repr, DecidableEq

/-- `s.Connection`: nil, one of getty's connections, or another one. -/
inductive Conn where
  | absent
  | tcp
  | udp
  | ws
  | other
  deriving Repr, DecidableEq

/-- What a call meets. -/
structure Meets where
  closed : Bool
  lifecycle : Lifecycle
  conn : Conn
  maxWriteMsgLen : Int
  send : Sent
  deriving Repr, DecidableEq

/-- What a call has to leave as it was: `callbackDepth`, the tasks of the lifecycle, the state of
`packetLock`, and the write timeout.  The write timeout is positive from the constructor on. -/
structure Books where
  callbackDepth : Int
  tasks : Nat
  locked : Bool
  readers : Nat
  wTimeout : Int
  positive : 1 ≤ wTimeout
  deriving Repr, DecidableEq

/-- The session, the caller's package, and the variables of the call. -/
structure State (V : Type) where
  books : Books
  rTimeout : Int
  pkg : Pkg V
  handed : List (Pkg V)
  sent : List (Arg V)
  pkgBytes : Bytes
  arg : Arg V
  origWriteTimeout : Int
  pkgBytesLength : Nat
  successCount : Nat
  err : Option Err
  deriving Repr, DecidableEq

/-! ## The source -/

/-- `packetLock` can be taken in the mode of a call. -/
def Books.available (b : Books) (timeout : Int) : Bool :=
  !b.locked && (decide (timeout ≤ 0) || b.readers == 0)

/-- The variables at the start of a call. -/
def State.enter (s : State V) : State V :=
  { s with
    pkgBytes := [], arg := .bytes [], origWriteTimeout := 0, pkgBytesLength := 0
    successCount := 0, err := none }

/-- `return n, count, err`. -/
def returning (n : State V → Nat) (count : State V → Nat) (err : State V → Option Err) :
    Stmt (State V) :=
  .ret fun s => { s with pkgBytesLength := n s, successCount := count s, err := err s }

/-- `if c { return 0, 0, err }`, and the rest of the function. -/
def refuseIf (c : State V → Bool) (err : Err) (rest : Stmt (State V)) : Stmt (State V) :=
  cond c (returning (fun _ => 0) (fun _ => 0) fun _ => some err) rest

/-- `pkg == nil`; a nil pointer in the interface is another value. -/
def Pkg.isNil : Pkg V → Bool
  | .nil => true
  | _ => false

/-- `invokeCallback`. -/
def invokeCallback (f : Stmt (State V)) : Stmt (State V) :=
  seq (assign fun s => { s with books.callbackDepth := s.books.callbackDepth + 1 })
    (deferring (assign fun s => { s with books.callbackDepth := s.books.callbackDepth - 1 }) f)

/-- `pkgBytes, err = writer.Write(s, pkg)`. -/
def callWriter (W : Pkg V → Encoded) : Stmt (State V) := fun s =>
  let s := { s with handed := s.handed ++ [s.pkg] }
  match W s.pkg with
  | .bytes b => some (.next, { s with pkgBytes := b, err := none })
  | .failed b msg => some (.next, { s with pkgBytes := b, err := some (.writer msg) })
  | .panics => some (.panic, s)

/-- The package after the encoded bytes are stored. -/
def Pkg.store (b : Bytes) : Pkg V → Pkg V
  | .pointer (some ctx) => .pointer (some { ctx with pkg := .bytes b })
  | pkg => pkg

/-- What is sent for a package. -/
def Pkg.arg (b : Bytes) : Pkg V → Arg V
  | .context ctx => .context { ctx with pkg := .bytes b }
  | .pointer (some ctx) => .context { ctx with pkg := .bytes b }
  | _ => .bytes b

/-- `gc.SetWriteTimeout`. -/
def setWriteTimeout (wTimeout : State V → Int) : Stmt (State V) := fun s =>
  if h : 1 ≤ wTimeout s then
    some (.next, { s with
      books := { s.books with wTimeout := wTimeout s, positive := h }
      rTimeout := if s.rTimeout = 0 then wTimeout s else s.rTimeout })
  else some (.panic, s)

/-- `checkWebsocketPayload`. -/
def Meets.tooLarge (m : Meets) (n : Nat) : Bool :=
  m.conn == .ws && decide (0 < m.maxWriteMsgLen) && decide (m.maxWriteMsgLen < (n : Int))

/-- `successCount, err = conn.Send(pkg)`. -/
def connSend (m : Meets) : Stmt (State V) := fun s =>
  let s := { s with sent := s.sent ++ [s.arg] }
  match m.send with
  | .ok n => some (.next, { s with successCount := n, err := none })
  | .failed n msg => some (.next, { s with successCount := n, err := some (.conn msg) })
  | .panics => some (.panic, s)

/-- The last part: the websocket limit and the send. -/
def limitedSend (m : Meets) : Stmt (State V) :=
  cond (fun s => m.tooLarge s.pkgBytes.length)
    (returning (fun s => s.pkgBytes.length) (fun _ => 0)
      fun s => some (.tooLarge s.pkgBytes.length m.maxWriteMsgLen))
    (seq (connSend m)
      (returning (fun s => s.pkgBytes.length) (fun s => s.successCount) fun s => s.err))

/-- The part under `packetLock`. -/
def lockedPart (m : Meets) (timeout : Int) : Stmt (State V) :=
  refuseIf (fun _ => m.conn == .absent || m.conn == .other) .sessionClosed <|
    if 0 < timeout then
      seq (assign fun s => { s with origWriteTimeout := s.books.wTimeout }) <|
      seq (setWriteTimeout fun _ => timeout) <|
      deferring (setWriteTimeout fun s => s.origWriteTimeout) (limitedSend m)
    else limitedSend m

/-- `packetLock` in the mode of the call, and its part. -/
def underLock (m : Meets) (timeout : Int) : Stmt (State V) :=
  seq (await fun s => s.books.available timeout) <|
    if 0 < timeout then
      seq (assign fun s => { s with books.locked := true }) <|
      deferring (assign fun s => { s with books.locked := false }) (lockedPart m timeout)
    else
      seq (assign fun s => { s with books.readers := s.books.readers + 1 }) <|
      deferring (assign fun s => { s with books.readers := s.books.readers - 1 })
        (lockedPart m timeout)

/-- The part whose panics are recovered. -/
def guardedPart (W : Pkg V → Encoded) (m : Meets) (timeout : Int) : Stmt (State V) :=
  seq (call (invokeCallback (callWriter W))) <|
  cond (fun s => s.err.isSome)
    (returning (fun s => s.pkgBytes.length) (fun _ => 0) fun s => s.err) <|
  seq (assign fun s => { s with pkg := s.pkg.store s.pkgBytes, arg := s.pkg.arg s.pkgBytes }) <|
  underLock m timeout

/-- The body of `WritePkg`. -/
def writePkgBody (W : Pkg V → Encoded) (m : Meets) (timeout : Int) : Stmt (State V) :=
  refuseIf (fun s => s.pkg.isNil) .nilPkg <|
  refuseIf (fun _ => m.closed) .sessionClosed <|
  refuseIf (fun _ => m.lifecycle != .opened) .sessionClosed <|
  seq (assign fun s => { s with books.tasks := s.books.tasks + 1 }) <|
  deferring (assign fun s => { s with books.tasks := s.books.tasks - 1 }) <|
  recovering (assign fun s => { s with err := some .panicked }) <|
  guardedPart W m timeout

/-- `WritePkg`. -/
def writePkg (W : Pkg V → Encoded) (m : Meets) (timeout : Int) : Stmt (State V) :=
  seq (assign State.enter) (call (writePkgBody W m timeout))

/-! ## The parts -/

/-- The connection is one of getty's. -/
def Meets.connected (m : Meets) : Bool := m.conn != .absent && m.conn != .other

/-- The arguments of `conn.Send` once `n` bytes are encoded. -/
def Meets.sends (m : Meets) (n : Nat) (arg : Arg V) : List (Arg V) :=
  if m.connected ∧ m.tooLarge n = false then [arg] else []

/-- Nothing goes wrong after `n` bytes are encoded. -/
def Meets.Good (m : Meets) (n : Nat) : Prop :=
  m.connected = true ∧ m.tooLarge n = false ∧ ∃ k, m.send = .ok k

/-- How a part ends: the books, the package and the ghosts are as given, and it returns with a nil
error exactly if all is good; if not, it may also panic. -/
structure Post (b : Books) (pkg : Pkg V) (handed : List (Pkg V)) (sent : List (Arg V))
    (good : Prop) (c : Ctl) (s : State V) : Prop where
  books : s.books = b
  pkg : s.pkg = pkg
  handed : s.handed = handed
  sent : s.sent = sent
  ended : c = .ret ∧ (s.err = none ↔ good) ∨ c = .panic ∧ ¬ good

variable {b b' : Books} {pkg : Pkg V} {handed : List (Pkg V)} {sent : List (Arg V)}
  {good : Prop} {c : Ctl} {s s₀ : State V}

/-- A deferred call that only changes the books. -/
theorem Post.restore {r : Int} (h : Post b pkg handed sent good c s) :
    Post b' pkg handed sent good c { s with books := b', rTimeout := r } :=
  ⟨rfl, h.pkg, h.handed, h.sent, h.ended⟩

theorem post_refused {e : Err} {n k : Nat} (hgood : ¬ good) :
    Post s.books s.pkg s.handed s.sent good .ret
      { s with pkgBytesLength := n, successCount := k, err := some e } := by
  refine ⟨rfl, rfl, rfl, rfl, Or.inl ⟨rfl, ?_⟩⟩
  constructor
  · intro hnone
    cases hnone
  · intro hall
    exact absurd hall hgood

/-- The limit and the send, which leave `origWriteTimeout` alone. -/
theorem limitedSend_ends (m : Meets) (s₀ : State V) (hconn : m.connected = true) :
    Ends (· = s₀) (limitedSend m) fun c s =>
      Post s₀.books s₀.pkg s₀.handed (s₀.sent ++ m.sends s₀.pkgBytes.length s₀.arg)
        (m.Good s₀.pkgBytes.length) c s ∧ s.origWriteTimeout = s₀.origWriteTimeout := by
  apply Ends.cond
  · apply Ends.ret
    rintro s ⟨rfl, hlarge⟩
    have hsends : m.sends s.pkgBytes.length s.arg = [] := by simp [Meets.sends, hlarge]
    rw [hsends, List.append_nil]
    exact ⟨post_refused fun hgood => by simp [hgood.2.1] at hlarge, rfl⟩
  · rintro s ⟨rfl, hlarge⟩
    have hsends : m.sends s.pkgBytes.length s.arg = [s.arg] := by
      simp [Meets.sends, hlarge, hconn]
    rw [hsends]
    cases hsend : m.send with
    | ok n =>
        refine ⟨.ret, { s with
          sent := s.sent ++ [s.arg], pkgBytesLength := s.pkgBytes.length, successCount := n
          err := none }, ?_, ?_, rfl⟩
        · simp only [seq, connSend, hsend, returning, Stmt.ret]
        · refine ⟨rfl, rfl, rfl, rfl, Or.inl ⟨rfl, ?_⟩⟩
          exact ⟨fun _ => ⟨hconn, hlarge, n, hsend⟩, fun _ => rfl⟩
    | failed n msg =>
        refine ⟨.ret, { s with
          sent := s.sent ++ [s.arg], pkgBytesLength := s.pkgBytes.length, successCount := n
          err := some (.conn msg) }, ?_, ?_, rfl⟩
        · simp only [seq, connSend, hsend, returning, Stmt.ret]
        · refine ⟨rfl, rfl, rfl, rfl, Or.inl ⟨rfl, ?_⟩⟩
          constructor
          · intro hnone
            cases hnone
          · rintro ⟨-, -, k, hk⟩
            cases hsend.symm.trans hk
    | panics =>
        refine ⟨.panic, { s with sent := s.sent ++ [s.arg] }, ?_, ?_, rfl⟩
        · simp only [seq, connSend, hsend]
        · refine ⟨rfl, rfl, rfl, rfl, Or.inr ⟨rfl, ?_⟩⟩
          rintro ⟨-, -, k, hk⟩
          cases hsend.symm.trans hk

private theorem connected_eq (m : Meets) :
    m.connected = !(m.conn == .absent || m.conn == .other) := by
  unfold Meets.connected
  cases m.conn <;> rfl

/-- A positive timeout is stored without a panic. -/
private theorem setWriteTimeout_ends {P : State V → Prop} {Q : Ctl → State V → Prop}
    {wTimeout : State V → Int} (hpos : ∀ s, P s → 1 ≤ wTimeout s)
    (h : ∀ s (hs : P s) (r : Int), Q .next { s with
      books := { s.books with wTimeout := wTimeout s, positive := hpos s hs }
      rTimeout := r }) :
    Ends P (setWriteTimeout wTimeout) Q :=
  fun s hs => ⟨.next, _, dif_pos (hpos s hs), h s hs _⟩

/-- The write timeout is stored for the send and then restored. -/
private theorem timedSend_ends (m : Meets) {timeout : Int} (hpos : 0 < timeout) (s₀ : State V)
    (hconn : m.connected = true) :
    Ends (· = s₀)
      (seq (assign fun s => { s with origWriteTimeout := s.books.wTimeout }) <|
        seq (setWriteTimeout fun _ => timeout) <|
        deferring (setWriteTimeout fun s => s.origWriteTimeout) (limitedSend m))
      (Post s₀.books s₀.pkg s₀.handed (s₀.sent ++ m.sends s₀.pkgBytes.length s₀.arg)
        (m.Good s₀.pkgBytes.length)) := by
  refine Ends.seq (R := fun s => s = { s₀ with origWriteTimeout := s₀.books.wTimeout }) ?_ ?_
  · apply Ends.assign
    rintro s rfl
    rw [if_pos rfl]
  refine Ends.seq (R := fun s => ∃ b r, s =
    { s₀ with books := b, rTimeout := r, origWriteTimeout := s₀.books.wTimeout } ∧
      ∀ h, { b with wTimeout := s₀.books.wTimeout, positive := h } = s₀.books) ?_ ?_
  · apply setWriteTimeout_ends (fun _ _ => hpos)
    rintro s rfl r
    rw [if_pos rfl]
    exact ⟨_, r, rfl, fun _ => rfl⟩
  · rintro s ⟨b, r, rfl, hback⟩
    refine Ends.deferring (P := (· = _)) (limitedSend_ends m _ hconn) ?_ _ rfl
    intro c
    apply setWriteTimeout_ends
    · rintro s ⟨hpost, horig⟩ r'
      rw [if_neg (by decide)]
      have hbooks : ∀ h, { s.books with wTimeout := s.origWriteTimeout, positive := h } =
          s₀.books := by
        intro h
        rw [← hback s₀.books.positive]
        simp only [hpost.books, horig]
      rw [hbooks]
      exact hpost.restore
    · rintro s ⟨-, horig⟩
      exact horig ▸ s₀.books.positive

private theorem lockedPart_ends (m : Meets) (timeout : Int) (s₀ : State V) :
    Ends (· = s₀) (lockedPart m timeout)
      (Post s₀.books s₀.pkg s₀.handed (s₀.sent ++ m.sends s₀.pkgBytes.length s₀.arg)
        (m.Good s₀.pkgBytes.length)) := by
  apply Ends.cond
  · apply Ends.ret
    rintro s ⟨rfl, hgone⟩
    have hconn : m.connected = false := by rw [connected_eq, hgone]; rfl
    have hsends : m.sends s.pkgBytes.length s.arg = [] := by simp [Meets.sends, hconn]
    rw [hsends, List.append_nil]
    exact post_refused fun hgood => by simp [hgood.1] at hconn
  · rintro s ⟨rfl, hthere⟩
    have hconn : m.connected = true := by rw [connected_eq, hthere]; rfl
    by_cases hpos : 0 < timeout
    · rw [if_pos hpos]
      exact timedSend_ends m hpos s hconn s rfl
    · rw [if_neg hpos]
      exact (limitedSend_ends m s hconn).mono (fun c s' h => h.1) s rfl

/-- The lock is taken in either mode and then released. -/
private theorem underLock_ends (m : Meets) (timeout : Int) (s₀ : State V)
    (hlock : s₀.books.available timeout = true) :
    Ends (· = s₀) (underLock m timeout)
      (Post s₀.books s₀.pkg s₀.handed (s₀.sent ++ m.sends s₀.pkgBytes.length s₀.arg)
        (m.Good s₀.pkgBytes.length)) := by
  have hfree : s₀.books.locked = false := by
    simp only [Books.available, Bool.and_eq_true, Bool.not_eq_true'] at hlock
    exact hlock.1
  refine Ends.seq (R := (· = s₀)) ?_ ?_
  · apply Ends.await
    · rintro s rfl
      exact hlock
    · rintro s rfl
      rw [if_pos rfl]
  · split
    · refine Ends.bracket (R := Post { s₀.books with locked := true } s₀.pkg s₀.handed
        (s₀.sent ++ m.sends s₀.pkgBytes.length s₀.arg) (m.Good s₀.pkgBytes.length)) ?_ ?_
      · rintro s ⟨s₁, rfl, rfl⟩
        exact lockedPart_ends m timeout _ _ rfl
      · intro c s hpost
        have hbooks : { s.books with locked := false } = s₀.books := by
          rw [hpost.books, ← hfree]
        rw [hbooks]
        exact hpost.restore
    · refine Ends.bracket (R := Post { s₀.books with readers := s₀.books.readers + 1 } s₀.pkg
        s₀.handed (s₀.sent ++ m.sends s₀.pkgBytes.length s₀.arg) (m.Good s₀.pkgBytes.length)) ?_ ?_
      · rintro s ⟨s₁, rfl, rfl⟩
        exact lockedPart_ends m timeout _ _ rfl
      · intro c s hpost
        have hbooks : { s.books with readers := s.books.readers - 1 } = s₀.books := by
          rw [hpost.books]
          rfl
        rw [hbooks]
        exact hpost.restore

/-- The package after a call that has come to the `Writer`. -/
def Pkg.stored (W : Pkg V → Encoded) (pkg : Pkg V) : Pkg V :=
  match W pkg with
  | .bytes b => pkg.store b
  | _ => pkg

/-- The arguments of `conn.Send` in a call that has come to the `Writer`. -/
def Meets.attempts (m : Meets) (W : Pkg V → Encoded) (pkg : Pkg V) : List (Arg V) :=
  match W pkg with
  | .bytes b => m.sends b.length (pkg.arg b)
  | _ => []

/-- Nothing goes wrong from the `Writer` on. -/
def Meets.Delivers (m : Meets) (W : Pkg V → Encoded) (pkg : Pkg V) : Prop :=
  ∃ b, W pkg = .bytes b ∧ m.Good b.length

/-- What the `Writer` leaves behind. -/
structure Wrote (W : Pkg V → Encoded) (s₀ : State V) (c : Ctl) (s : State V) : Prop where
  books : s.books = s₀.books
  pkg : s.pkg = s₀.pkg
  handed : s.handed = s₀.handed ++ [s₀.pkg]
  sent : s.sent = s₀.sent
  ended : (∃ b, W s₀.pkg = .bytes b ∧ c = .next ∧ s.pkgBytes = b ∧ s.err = none) ∨
    (∃ b msg, W s₀.pkg = .failed b msg ∧ c = .next ∧ s.err = some (.writer msg)) ∨
    W s₀.pkg = .panics ∧ c = .panic

/-- `callbackDepth` is counted up for the `Writer` and down again, also when it panics. -/
private theorem invokeWriter_ends (W : Pkg V → Encoded) (s₀ : State V) :
    Ends (· = s₀) (call (invokeCallback (callWriter W))) (Wrote W s₀) := by
  apply Ends.call
  refine Ends.bracket (R := fun c s => Wrote W
    { s₀ with books.callbackDepth := s₀.books.callbackDepth + 1 } c s) ?_ ?_
  · rintro s ⟨s₁, rfl, rfl⟩
    cases hw : W s₁.pkg with
    | bytes b =>
        refine ⟨.next, { s₁ with
          books.callbackDepth := s₁.books.callbackDepth + 1, handed := s₁.handed ++ [s₁.pkg]
          pkgBytes := b, err := none }, ?_, rfl, rfl, rfl, rfl, ?_⟩
        · simp only [callWriter, hw]
        · exact Or.inl ⟨b, hw, rfl, rfl, rfl⟩
    | failed b msg =>
        refine ⟨.next, { s₁ with
          books.callbackDepth := s₁.books.callbackDepth + 1, handed := s₁.handed ++ [s₁.pkg]
          pkgBytes := b, err := some (.writer msg) }, ?_, rfl, rfl, rfl, rfl, ?_⟩
        · simp only [callWriter, hw]
        · exact Or.inr (Or.inl ⟨b, msg, hw, rfl, rfl⟩)
    | panics =>
        refine ⟨.panic, { s₁ with
          books.callbackDepth := s₁.books.callbackDepth + 1, handed := s₁.handed ++ [s₁.pkg] },
          ?_, rfl, rfl, rfl, rfl, ?_⟩
        · simp only [callWriter, hw]
        · exact Or.inr (Or.inr ⟨hw, rfl⟩)
  · intro c s hwrote
    refine ⟨?_, hwrote.pkg, hwrote.handed, hwrote.sent, ?_⟩
    · show { s.books with callbackDepth := s.books.callbackDepth - 1 } = s₀.books
      rw [hwrote.books]
      simp only [Int.add_sub_cancel]
    · rcases hwrote.ended with ⟨b, hw, rfl, hrest⟩ | ⟨b, msg, hw, rfl, hrest⟩ | ⟨hw, rfl⟩
      · exact Or.inl ⟨b, hw, rfl, hrest⟩
      · exact Or.inr (Or.inl ⟨b, msg, hw, rfl, hrest⟩)
      · exact Or.inr (Or.inr ⟨hw, rfl⟩)

theorem stored_of_bytes {W : Pkg V → Encoded} {p : Pkg V} {bs : Bytes} (h : W p = .bytes bs) :
    p.stored W = p.store bs := by
  simp only [Pkg.stored, h]

theorem stored_of_failure {W : Pkg V → Encoded} {p : Pkg V} (h : ∀ bs, W p ≠ .bytes bs) :
    p.stored W = p := by
  unfold Pkg.stored
  split
  · next bs hw => exact absurd hw (h bs)
  · rfl

private theorem attempts_of_bytes {W : Pkg V → Encoded} {p : Pkg V} {bs : Bytes} (m : Meets)
    (h : W p = .bytes bs) : m.attempts W p = m.sends bs.length (p.arg bs) := by
  simp only [Meets.attempts, h]

theorem attempts_of_failure {W : Pkg V → Encoded} {p : Pkg V} (m : Meets)
    (h : ∀ bs, W p ≠ .bytes bs) : m.attempts W p = [] := by
  unfold Meets.attempts
  split
  · next bs hw => exact absurd hw (h bs)
  · rfl

/-- The part up to the recovery. -/
private theorem guardedPart_ends (W : Pkg V → Encoded) (m : Meets) (timeout : Int) (s₀ : State V)
    (hlock : s₀.books.available timeout = true) :
    Ends (· = s₀) (guardedPart W m timeout)
      (Post s₀.books (s₀.pkg.stored W) (s₀.handed ++ [s₀.pkg]) (s₀.sent ++ m.attempts W s₀.pkg)
        (m.Delivers W s₀.pkg)) := by
  have hfails (h : ∀ bs, W s₀.pkg ≠ .bytes bs) : ¬ m.Delivers W s₀.pkg :=
    fun ⟨bs, hbs, _⟩ => h bs hbs
  refine Ends.seq (R := Wrote W s₀ .next) ?_ ?_
  · refine (invokeWriter_ends W s₀).mono ?_
    intro c s hwrote
    rcases hwrote.ended with ⟨b, -, rfl, -⟩ | ⟨b, msg, -, rfl, -⟩ | ⟨hw, rfl⟩
    · exact hwrote
    · exact hwrote
    · have hnot : ∀ bs, W s₀.pkg ≠ .bytes bs := by simp [hw]
      rw [if_neg (by decide), stored_of_failure hnot, attempts_of_failure m hnot, List.append_nil]
      exact ⟨hwrote.books, hwrote.pkg, hwrote.handed, hwrote.sent, Or.inr ⟨rfl, hfails hnot⟩⟩
  · apply Ends.cond
    · apply Ends.ret
      rintro s ⟨hwrote, herr⟩
      have hnot : ∀ bs, W s₀.pkg ≠ .bytes bs := by
        rcases hwrote.ended with ⟨b, -, -, -, hnone⟩ | ⟨b, msg, hw, -⟩ | ⟨hw, -⟩
        · simp [hnone] at herr
        · simp [hw]
        · simp [hw]
      rw [stored_of_failure hnot, attempts_of_failure m hnot, List.append_nil]
      refine ⟨hwrote.books, hwrote.pkg, hwrote.handed, hwrote.sent, Or.inl ⟨rfl, ?_⟩⟩
      constructor
      · intro hnone
        rw [show s.err = none from hnone] at herr
        cases herr
      · intro hall
        exact absurd hall (hfails hnot)
    · rintro s ⟨hwrote, herr⟩
      rcases hwrote.ended with ⟨b, hw, -, hbytes, -⟩ | ⟨b, msg, -, -, hsome⟩ | ⟨-, hpanic⟩
      · obtain ⟨c, s', hrun, hpost⟩ := underLock_ends m timeout
          { s with pkg := s.pkg.store s.pkgBytes, arg := s.pkg.arg s.pkgBytes }
          (hwrote.books ▸ hlock) _ rfl
        refine ⟨c, s', hrun, hpost.books.trans hwrote.books, ?_, ?_, ?_, ?_⟩
        · rw [hpost.pkg, stored_of_bytes hw, hbytes, hwrote.pkg]
        · rw [hpost.handed, hwrote.handed]
        · rw [hpost.sent, attempts_of_bytes m hw, hbytes, hwrote.pkg, hwrote.sent]
        · have hiff : m.Good s.pkgBytes.length ↔ m.Delivers W s₀.pkg := by
            rw [hbytes]
            constructor
            · intro hgood
              exact ⟨b, hw, hgood⟩
            · rintro ⟨b', hw', hgood⟩
              obtain rfl : b = b' := Encoded.bytes.inj (hw.symm.trans hw')
              exact hgood
          rw [← hiff]
          exact hpost.ended
      · simp [hsome] at herr
      · cases hpanic

/-! ## A call -/

/-- The call comes to the `Writer`. -/
def Meets.admits (m : Meets) (pkg : Pkg V) : Bool :=
  !pkg.isNil && !m.closed && m.lifecycle == .opened

/-- **What a call of `WritePkg` does.** -/
structure Called (W : Pkg V → Encoded) (m : Meets) (s s' : State V) : Prop where
  books : s'.books = s.books
  pkg : s'.pkg = if m.admits s.pkg then s.pkg.stored W else s.pkg
  handed : s'.handed = s.handed ++ if m.admits s.pkg then [s.pkg] else []
  sent : s'.sent = s.sent ++ if m.admits s.pkg then m.attempts W s.pkg else []
  err : s'.err = none ↔ m.admits s.pkg = true ∧ m.Delivers W s.pkg

private theorem called_refused {W : Pkg V → Encoded} {m : Meets} {e : Err} {n k : Nat}
    (h : m.admits s.pkg = false) :
    Called W m s { s with pkgBytesLength := n, successCount := k, err := some e } := by
  refine ⟨rfl, ?_, ?_, ?_, ?_⟩
  · simp [h]
  · simp [h]
  · simp [h]
  · simp [h]

private theorem writePkgBody_ends (W : Pkg V → Encoded) (m : Meets) (timeout : Int) (s₀ : State V)
    (hlock : s₀.books.available timeout = true) :
    Ends (· = s₀) (writePkgBody W m timeout) fun c s => c = .ret ∧ Called W m s₀ s := by
  apply Ends.cond
  · apply Ends.ret
    rintro s ⟨rfl, hnil⟩
    exact ⟨rfl, called_refused (by simp [Meets.admits, hnil])⟩
  apply Ends.cond
  · apply Ends.ret
    rintro s ⟨⟨rfl, -⟩, hclosed⟩
    exact ⟨rfl, called_refused (by simp [Meets.admits, hclosed])⟩
  apply Ends.cond
  · apply Ends.ret
    rintro s ⟨⟨⟨rfl, -⟩, -⟩, hlifecycle⟩
    have hnot : m.lifecycle ≠ .opened := by simpa using hlifecycle
    exact ⟨rfl, called_refused (by simp [Meets.admits, hnot])⟩
  · rintro s ⟨⟨⟨rfl, hnil⟩, hclosed⟩, hlifecycle⟩
    have hadmits : m.admits s.pkg = true := by
      have hopened : m.lifecycle = .opened := by simpa using hlifecycle
      simp [Meets.admits, hnil, hclosed, hopened]
    refine Ends.bracket (P := (· = s)) (R := fun c s' => c = .ret ∧ s'.books =
        { s.books with tasks := s.books.tasks + 1 } ∧
        s'.pkg = s.pkg.stored W ∧ s'.handed = s.handed ++ [s.pkg] ∧
        s'.sent = s.sent ++ m.attempts W s.pkg ∧ (s'.err = none ↔ m.Delivers W s.pkg)) ?_ ?_ s rfl
    · rintro s₂ ⟨s₁, rfl, rfl⟩
      have hguard := guardedPart_ends W m timeout
        { s₁ with books.tasks := s₁.books.tasks + 1 } hlock
      refine Ends.recovering (R := Post { s₁.books with tasks := s₁.books.tasks + 1 }
        (s₁.pkg.stored W) (s₁.handed ++ [s₁.pkg]) (s₁.sent ++ m.attempts W s₁.pkg)
        (m.Delivers W s₁.pkg) .panic) (hguard.mono ?_) ?_ _ rfl
      · intro c s' hpost
        rcases hpost.ended with ⟨rfl, hiff⟩ | ⟨rfl, -⟩
        · rw [if_neg (by decide)]
          exact ⟨rfl, hpost.books, hpost.pkg, hpost.handed, hpost.sent, hiff⟩
        · exact hpost
      · apply Ends.assign
        intro s' hpost
        have hbad : ¬ m.Delivers W s₁.pkg := by
          rcases hpost.ended with ⟨hret, -⟩ | ⟨-, hbad⟩
          · cases hret
          · exact hbad
        refine ⟨rfl, hpost.books, hpost.pkg, hpost.handed, hpost.sent, ?_⟩
        simp [hbad]
    · rintro c s' ⟨rfl, hbooks, hpkg, hhanded, hsent, herr⟩
      refine ⟨rfl, ?_, ?_, ?_, ?_, ?_⟩
      · show { s'.books with tasks := s'.books.tasks - 1 } = s.books
        rw [hbooks]
        rfl
      · simp only [hadmits, if_true, hpkg]
      · simp only [hadmits, if_true, hhanded]
      · simp only [hadmits, if_true, hsent]
      · rw [hadmits, herr]
        simp

/-- **What `WritePkg` does**, for every `Writer`, every connection and every timeout. -/
theorem writePkg_spec (W : Pkg V → Encoded) (m : Meets) (timeout : Int) (s : State V)
    (hlock : s.books.available timeout = true) :
    ∃ s', writePkg W m timeout s = some (.next, s') ∧ Called W m s s' := by
  obtain ⟨c, s', hrun, rfl, hcalled⟩ := writePkgBody_ends W m timeout s.enter hlock _ rfl
  refine ⟨s', ?_, hcalled.books, hcalled.pkg, hcalled.handed, hcalled.sent, hcalled.err⟩
  simp only [writePkg, seq, assign, call, hrun]

/-- A package that cannot be encoded is not sent. -/
theorem Called.of_failure {W : Pkg V → Encoded} {m : Meets} {s' : State V}
    (h : Called W m s s') (hfail : ∀ bs, W s.pkg ≠ .bytes bs) :
    s'.err ≠ none ∧ s'.sent = s.sent := by
  constructor
  · intro hnone
    obtain ⟨bs, hbs, -⟩ := (h.err.mp hnone).2
    exact hfail bs hbs
  · rw [h.sent, attempts_of_failure m hfail, ite_self, List.append_nil]

/-- A call that finds the session closed, at any of its three tests, sends nothing. -/
theorem Called.of_closed {W : Pkg V → Encoded} {m : Meets} {s' : State V} (h : Called W m s s')
    (hclosed : m.admits s.pkg = false ∨ m.connected = false) :
    s'.err ≠ none ∧ s'.sent = s.sent := by
  rcases hclosed with hrefused | hgone
  · constructor
    · intro hnone
      cases hrefused.symm.trans (h.err.mp hnone).1
    · rw [h.sent, hrefused, if_neg Bool.false_ne_true, List.append_nil]
  · constructor
    · intro hnone
      obtain ⟨bs, -, hgood⟩ := (h.err.mp hnone).2
      cases hgone.symm.trans hgood.1
    · have hnothing : m.attempts W s.pkg = [] := by
        unfold Meets.attempts
        split
        · simp [Meets.sends, hgone]
        · rfl
      rw [h.sent, hnothing, ite_self, List.append_nil]

/-- **`WritePkg` is panic-safe and balanced.**  However the `Writer` and the connection end, and
whatever the call finds of the session, it returns, and `callbackDepth`, the tasks of the
lifecycle, `packetLock` and the write timeout are what they were.  The error is not nil if the
`Writer` failed or panicked, the send failed or panicked, or the session was closed; in the first
and the last case nothing was given to `conn.Send`. -/
theorem writePkg_balanced (W : Pkg V → Encoded) (m : Meets) (timeout : Int) (s : State V)
    (hlock : s.books.available timeout = true) :
    ∃ s', writePkg W m timeout s = some (.next, s') ∧ s'.books = s.books ∧
      ((∃ b msg, W s.pkg = .failed b msg) ∨ W s.pkg = .panics →
        s'.err ≠ none ∧ s'.sent = s.sent) ∧
      (m.closed = true ∨ m.lifecycle ≠ .opened ∨ m.conn = .absent →
        s'.err ≠ none ∧ s'.sent = s.sent) ∧
      ((∃ n msg, m.send = .failed n msg) ∨ m.send = .panics → s'.err ≠ none) := by
  obtain ⟨s', hrun, hcalled⟩ := writePkg_spec W m timeout s hlock
  refine ⟨s', hrun, hcalled.books, ?_, ?_, ?_⟩
  · rintro (⟨b, msg, hw⟩ | hw)
    · exact hcalled.of_failure (by simp [hw])
    · exact hcalled.of_failure (by simp [hw])
  · rintro (hclosed | hlifecycle | hgone)
    · exact hcalled.of_closed (Or.inl (by simp [Meets.admits, hclosed]))
    · exact hcalled.of_closed (Or.inl (by simp [Meets.admits, hlifecycle]))
    · exact hcalled.of_closed (Or.inr (by simp [Meets.connected, hgone]))
  · intro hsend hnone
    obtain ⟨b, -, -, -, n, hok⟩ := (hcalled.err.mp hnone).2
    rcases hsend with ⟨k, msg, hfailed⟩ | hpanics
    · cases hok.symm.trans hfailed
    · cases hok.symm.trans hpanics

/-- A session on which nothing goes on. -/
def idle (pkg : Pkg V) : State V :=
  ⟨⟨0, 0, false, 0, 1000000000, by decide⟩, 1000000000, pkg, [], [], [], .bytes [], 0, 0, 0, none⟩

/-- The send of a call with a timeout panics. -/
theorem writePkg_balanced_panics :
    ∃ s', writePkg (fun _ => .bytes [1]) ⟨false, .opened, .tcp, 0, .panics⟩ 5
        (idle (.plain (.value ()))) = some (.next, s') ∧
      s'.books = (idle (.plain (.value ()))).books ∧ s'.err ≠ none := by
  obtain ⟨s', hrun, hbooks, -, -, herr⟩ := writePkg_balanced (fun _ => .bytes [1])
    ⟨false, .opened, .tcp, 0, .panics⟩ 5 (idle (.plain (.value ()))) rfl
  exact ⟨s', hrun, hbooks, herr (Or.inr rfl)⟩

/-! ## Several calls with one package -/

/-- Successive calls, each with its timeout and what it meets. -/
def writePkgs (W : Pkg V → Encoded) : List (Meets × Int) → State V → Option (State V)
  | [], s => some s
  | (m, timeout) :: cs, s => (writePkg W m timeout s).bind fun out => writePkgs W cs out.2

/-- Storing the encoded bytes changes nothing: the package is not a pointer to a `UDPContext`,
or it cannot be encoded, or the object already holds the encoded bytes. -/
def Kept (W : Pkg V → Encoded) (pkg : Pkg V) : Prop :=
  ∀ ctx b, pkg = .pointer (some ctx) → W pkg = .bytes b → ctx.pkg = .bytes b

theorem stored_eq_iff (W : Pkg V → Encoded) (p : Pkg V) : p.stored W = p ↔ Kept W p := by
  constructor
  · rintro hsame ctx bs rfl hbs
    rw [stored_of_bytes hbs] at hsame
    exact (congrArg UDPContext.pkg (Option.some.inj (Pkg.pointer.inj hsame))).symm
  · intro hkept
    cases hw : W p with
    | bytes bs =>
        rw [stored_of_bytes hw]
        match p, hkept, hw with
        | .nil, _, _ => rfl
        | .plain _, _, _ => rfl
        | .context _, _, _ => rfl
        | .pointer none, _, _ => rfl
        | .pointer (some ctx), hkept, hw =>
            show Pkg.pointer (some { ctx with pkg := .bytes bs }) = .pointer (some ctx)
            rw [← hkept ctx bs rfl hw]
    | failed bs msg => exact stored_of_failure (by simp [hw])
    | panics => exact stored_of_failure (by simp [hw])

private theorem mem_attempts {W : Pkg V → Encoded} {m : Meets} {p : Pkg V} {a : Arg V}
    (h : a ∈ m.attempts W p) : ∃ b, W p = .bytes b ∧ a = p.arg b := by
  unfold Meets.attempts at h
  split at h
  · next b hw =>
      rw [Meets.sends] at h
      split at h
      · exact ⟨b, hw, List.mem_singleton.mp h⟩
      · cases h
  · cases h

/-- The calls have handed `p` to the `Writer` each time, and its encoding to the connection. -/
structure Same (W : Pkg V → Encoded) (p : Pkg V) (s : State V) : Prop where
  pkg : s.pkg = p
  handed : ∀ q ∈ s.handed, q = p
  sent : ∀ a ∈ s.sent, ∃ b, W p = .bytes b ∧ a = p.arg b

/-- **Step lemma.** -/
theorem Same.called {W : Pkg V → Encoded} {m : Meets} {p : Pkg V} {s' : State V}
    (hkept : Kept W p) (h : Same W p s) (hcalled : Called W m s s') : Same W p s' := by
  obtain ⟨rfl, hhanded, hsent⟩ := h
  refine ⟨?_, ?_, ?_⟩
  · rw [hcalled.pkg, (stored_eq_iff W s.pkg).mpr hkept, ite_self]
  · intro q hq
    rw [hcalled.handed] at hq
    rcases List.mem_append.mp hq with hbefore | hnow
    · exact hhanded q hbefore
    · split at hnow
      · exact List.mem_singleton.mp hnow
      · cases hnow
  · intro a ha
    rw [hcalled.sent] at ha
    rcases List.mem_append.mp ha with hbefore | hnow
    · exact hsent a hbefore
    · split at hnow
      · exact mem_attempts hnow
      · cases hnow

theorem Books.available_of_free {b : Books} (hlocked : b.locked = false) (hreaders : b.readers = 0)
    (timeout : Int) : b.available timeout = true := by
  simp [Books.available, hlocked, hreaders]

/-- **Run lemma.** -/
theorem Same.run {W : Pkg V → Encoded} {p : Pkg V} (hkept : Kept W p) (cs : List (Meets × Int))
    {s : State V} (hlocked : s.books.locked = false) (hreaders : s.books.readers = 0)
    (h : Same W p s) : ∃ s', writePkgs W cs s = some s' ∧ Same W p s' := by
  induction cs generalizing s with
  | nil => exact ⟨s, rfl, h⟩
  | cons call cs ih =>
      obtain ⟨m, timeout⟩ := call
      obtain ⟨s₁, hrun, hcalled⟩ := writePkg_spec W m timeout s
        (Books.available_of_free hlocked hreaders timeout)
      obtain ⟨s', hrest, hsame⟩ := ih (hcalled.books ▸ hlocked) (hcalled.books ▸ hreaders)
        (h.called hkept hcalled)
      exact ⟨s', by rw [writePkgs, hrun]; exact hrest, hsame⟩

/-- **The caller's package** survives any number of calls, so that each of them hands it to the
`Writer` as the caller has built it and sends the same bytes, exactly if it is not a pointer to a
`UDPContext` into which the first successful encoding stores something else. -/
theorem package_kept_iff (W : Pkg V → Encoded) (p : Pkg V) :
    (∀ cs, ∃ s', writePkgs W cs (idle p) = some s' ∧ Same W p s') ↔ Kept W p := by
  constructor
  · intro hall
    obtain ⟨s', hrun, hsame⟩ := hall [(⟨false, .opened, .udp, 0, .ok 0⟩, 0)]
    obtain ⟨s₁, hcall, hcalled⟩ := writePkg_spec W ⟨false, .opened, .udp, 0, .ok 0⟩ 0 (idle p) rfl
    rw [writePkgs, hcall] at hrun
    obtain rfl : s₁ = s' := Option.some.inj hrun
    rintro ctx b rfl hb
    have hpkg := hcalled.pkg.symm.trans hsame.pkg
    have hadmits : (⟨false, .opened, .udp, 0, .ok 0⟩ : Meets).admits
        (idle (.pointer (some ctx))).pkg = true := rfl
    rw [if_pos hadmits] at hpkg
    exact (stored_eq_iff W _).mp hpkg ctx b rfl hb
  · intro hkept cs
    refine Same.run hkept cs rfl rfl ⟨rfl, ?_, ?_⟩
    · intro q hq
      cases hq
    · intro a ha
      cases ha

/-- The `Writer` of the example: a value is one byte, and a byte slice gets a header. -/
def headerWriter : Pkg UInt8 → Encoded
  | .pointer (some ⟨.value v, _⟩) => .bytes [v]
  | .pointer (some ⟨.bytes b, _⟩) => .bytes (9 :: b)
  | _ => .bytes []

/-- A plain package is kept. -/
theorem package_kept_plain :
    ∃ s', writePkgs headerWriter [(⟨false, .opened, .tcp, 0, .ok 0⟩, 0),
      (⟨false, .opened, .tcp, 0, .panics⟩, 3)] (idle (.plain (.value 1))) = some s' ∧
      s'.pkg = .plain (.value 1) := by
  have hkept : Kept headerWriter (.plain (.value 1)) := by
    intro ctx b hptr
    cases hptr
  obtain ⟨s', hrun, hsame⟩ := (package_kept_iff headerWriter (.plain (.value 1))).mpr hkept
    [(⟨false, .opened, .tcp, 0, .ok 0⟩, 0), (⟨false, .opened, .tcp, 0, .panics⟩, 3)]
  exact ⟨s', hrun, hsame.pkg⟩

/-- **A pointer to a `UDPContext` is rewritten.**  The second call hands the encoded bytes of the
first one to the `Writer`, and sends something else. -/
theorem package_rewritten :
    (writePkgs headerWriter [(⟨false, .opened, .udp, 0, .ok 1⟩, 0),
        (⟨false, .opened, .udp, 0, .ok 2⟩, 0)]
      (idle (.pointer (some ⟨.value 1, some 7⟩)))).map (fun s => (s.pkg, s.handed, s.sent)) =
    some (.pointer (some ⟨.bytes [9, 1], some 7⟩),
      [.pointer (some ⟨.value 1, some 7⟩), .pointer (some ⟨.bytes [1], some 7⟩)],
      [.context ⟨.bytes [1], some 7⟩, .context ⟨.bytes [9, 1], some 7⟩]) := by
  decide

end Getty.Transport.WritePkg
