import Mathlib.Algebra.GroupWithZero.Nat

/-!
# Bytes, limits and errors

The data the three receive loops of `transport/session.go` share: the byte
slices they hand to the application's `Reader`, what `recv` and the `Reader`
return, and the errors a loop can end with.  For the calls that write, the mode
in which each of them takes `packetLock`.
-/

namespace Getty.Transport

/-- A byte slice. -/
abbrev Bytes := List UInt8

/-- `maxReadBufLen`, the bytes one `recv` of the TCP loop can deliver. -/
def maxReadBufLen : Nat := 4 * 1024

/-- `maxPacketLen`, the size above which `WriteBytes` fragments a package. -/
def maxPacketLen : Nat := 16 * 1024

/-- `math.MaxInt32`. -/
def maxInt32 : Int := 2147483647

/-- `normalizeMsgLen`: what `SetMaxMsgLen` and `SetMaxWriteMsgLen` store. -/
def normalizeMsgLen (length : Int) : Int :=
  if length ≤ 0 then 0 else if maxInt32 < length then maxInt32 else length

theorem normalizeMsgLen_pos {length : Int} (h : 0 < length) : 0 < normalizeMsgLen length := by
  rw [normalizeMsgLen, if_neg (by omega)]
  split
  · decide
  · exact h

theorem normalizeMsgLen_le_self {length : Int} (h : 0 < length) :
    normalizeMsgLen length ≤ length := by
  rw [normalizeMsgLen, if_neg (by omega)]
  split <;> omega

/-- A receive error, as the loops tell them apart: a `net.Error` that is a
timeout, `io.EOF`, or anything else. -/
inductive RecvErr where
  | timeout
  | eof
  | other (msg : String)
  deriving Repr, DecidableEq

/-- One result of `gettyTCPConn.recv`: the bytes it stored and its error. -/
structure RecvResult where
  data : Bytes
  err : Option RecvErr
  deriving Repr, DecidableEq

/-- The three values of `Reader.Read`; `pkg` is `none` for a nil package. -/
structure ReadResult (P : Type) where
  pkg : Option P
  pkgLen : Int
  err : Option String
  deriving Repr, DecidableEq

/-- The errors a receive loop can leave in its `err` variable. -/
inductive LoopErr where
  | recv (err : RecvErr)
  | connRead (err : RecvErr)
  | reader (msg : String)
  | pkgLenAbove (pkgLen maxMsgLen : Int)
  | incompleteAbove (bufLen : Nat) (maxMsgLen : Int)
  | messageTooLong (bufLen : Nat) (maxMsgLen : Int)
  | handshake (msg : String)
  deriving Repr, DecidableEq

/-- `addTask` without a task pool: the package reaches `OnMessage` when the
lifecycle is open, the session not closed and a listener installed. -/
def addTask {M : Type} (isOpen : Bool) (pkg : M) (messages : List M) : List M :=
  if isOpen then messages ++ [pkg] else messages

/-! ## The calls that write -/

/-- The dynamic type of `s.Connection`, as the write calls tell it apart. -/
inductive ConnType where
  | tcp
  | ws
  | other
  deriving Repr, DecidableEq

/-- A method that writes, with what it looks at before it takes `packetLock`: the sizes of its
packages, or the timeout of `WritePkg`. -/
inductive WriteMethod where
  | writeBytes (size : Nat)
  | writeBytesArray (sizes : List Nat)
  | writePkg (timeout : Int)
  | send
  deriving Repr, DecidableEq

/-- The method takes the write lock.  A batch of one package, and any batch that is neither for
TCP nor for a websocket, goes to `WriteBytes`. -/
def WriteMethod.exclusive (type : ConnType) : WriteMethod → Bool
  | .writeBytes size => decide (maxPacketLen < size)
  | .writeBytesArray [size] => decide (maxPacketLen < size)
  | .writeBytesArray sizes =>
      match type with
      | .tcp => false
      | .ws => true
      | .other => decide (maxPacketLen < sizes.sum)
  | .writePkg timeout => decide (0 < timeout)
  | .send => false

/-- The number of sends that `WriteBytes` makes of `n` bytes outside websockets. -/
def fragmentNum (n : Nat) : Nat := (n + (maxPacketLen - 1)) / maxPacketLen

/-- The number of sends that `WriteBytes` makes of `n` bytes. -/
def packageNum (type : ConnType) (n : Nat) : Nat := if type = .ws then 1 else fragmentNum n

/-! ## Session fields -/

/-- The state of a `sync.Once`. -/
inductive Once where
  | fresh
  | running
  | finished
  deriving Repr, DecidableEq

/-- The two reconnect attributes of a session, `sessionClientKey` and
`ignoreReconnectKey`. -/
structure Attrs where
  client : Bool
  ignoreReconnect : Option Bool
  deriving Repr, DecidableEq

/-! ## The end of the read goroutine -/

/-- What `handlePackage`'s deferred function does once the loop has ended. -/
inductive ShutdownEvent where
  | stop
  | onError (err : LoopErr)
  | onClose
  | gc
  deriving Repr, DecidableEq

/-- `handlePackage` after its receive loop returned `err`, with or without a
listener installed: `stop`, then `OnError` when there is an error, `OnClose`,
and `gc` last. -/
def handlePackageExit (listener : Bool) (err : Option LoopErr) : List ShutdownEvent :=
  let onError := match err with
    | some e => if listener then [.onError e] else []
    | none => []
  let onClose := if listener then [.onClose] else []
  [.stop] ++ onError ++ onClose ++ [.gc]

/-- With a listener, `OnError` is invoked exactly when the loop returned an
error, and then right before `OnClose`. -/
private theorem handlePackageExit_listener (err : Option LoopErr) :
    handlePackageExit true err =
      match err with
      | some e => [.stop, .onError e, .onClose, .gc]
      | none => [.stop, .onClose, .gc] := by
  cases err <;> rfl

/-- `OnError` is not invoked exactly when the loop returned nil. -/
theorem onError_not_mem_handlePackageExit (err : Option LoopErr) :
    (∀ e, ShutdownEvent.onError e ∉ handlePackageExit true err) ↔ err = none := by
  rw [handlePackageExit_listener]
  cases err with
  | none => simp
  | some e =>
      simp only [reduceCtorEq, iff_false]
      exact fun h => h e (by simp)

end Getty.Transport
