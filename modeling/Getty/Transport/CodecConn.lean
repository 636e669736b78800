import Getty.Verified.StreamCodec
import Getty.Verified.ThreadPool
import Getty.Transport.WriteCount

/-!
# A TCP connection with a codec

`SetCompressType` puts a codec between `gettyTCPConn` and its socket.  `Send` enters the
critical section of `writeFlusher` or `snappyWriteFlusher` and writes and flushes there;
the codec hands its output to `codecPollingWriter`, which writes it to the socket, takes
up partial writes where they ended and absorbs timeouts.  `CloseConn` terminates the codec
stream in the same critical section.

The threads below are the calls of `Send`, `recv` and `CloseConn` on one connection, and
the session's `stop`.  The codec is any `Encoder`.  A call brings a script with what its
rounds on the socket will come to, so that a statement about every run is one about every
behaviour of the socket and of the clock.  What the codec does with an error of its sink
is the assumption made about `compress/flate` and `snappy`: it keeps the error in `latched`,
writes nothing more and returns it from every later operation.

The fields `aborted`, `log`, `rest` and `results` are ghosts: whether a `Write` of the
polling writer has failed, the operations the codec has carried out, their output that is
not on the wire yet, and what the `Send` calls return.
-/

namespace Getty.Transport.CodecConn

open Getty.Verified.ThreadPool Getty.Verified.StreamCodec
open Getty.Transport.WriteCount (Arg)

/-! ## Data -/

/-- An error: a timeout, `io.EOF`, what a closed codec writer returns,
`ErrCodecStreamBroken`, a package of the wrong type, or anything else. -/
inductive Err where
  | timeout
  | eof
  | writerClosed
  | codecStreamBroken
  | illegalPkg
  | other (code : Nat)
  deriving Repr, DecidableEq

def isTimeoutError : Err → Bool
  | .timeout => true
  | _ => false

/-- The error `codecIOError` returns. -/
def codecIOError (err : Err) : Err :=
  if isTimeoutError err then .codecStreamBroken else err

/-- The connection's `codecStallTimeout`. -/
structure Cfg where
  codecStallTimeout : Int
  deriving Repr, DecidableEq

/-- `time.Millisecond`. -/
def millisecond : Int := 1000000

/-- One round of `codecPollingWriter.Write`: the clock when `Write` is called, the write
timeout it loads, the error of `SetWriteDeadline`, the two results of `conn.Write`, and the
clock when it records progress and when it tests for a stall. -/
structure WritePoll where
  startedAt : Int
  wTimeout : Int
  deadlineErr : Option Err
  n : Nat
  err : Option Err
  progressAt : Int
  testedAt : Int
  deriving Repr, DecidableEq

/-- What a `Send` returns; `late` says that it started after a failed write. -/
structure Result where
  arg : Arg
  late : Bool
  count : Nat
  err : Option Err
  deriving Repr, DecidableEq

/-- What a `recv` returns. -/
structure RecvResult where
  length : Nat
  err : Option Err
  deriving Repr, DecidableEq

/-- The connection. -/
structure Shared (κ : Type) where
  codecBroken : Bool
  closing : Bool
  sessionClosed : Bool
  sockClosed : Bool
  closeOnce : Once
  lock : Bool
  enc : κ
  latched : Option Err
  wire : Bytes
  reads : Nat
  aborted : Bool
  log : List (Op UInt8)
  rest : Bytes
  results : List Result

/-! ## Threads -/

/-- A call in the critical section of the codec writer: between two chunks of the codec's
output, before a round on the socket, after one that ended in a timeout, or done. -/
inductive Sect where
  | next (chunks : List Bytes) (todo : List (Op UInt8))
  | poll (p : Bytes) (written : Nat) (lastProgress : Int) (chunks : List Bytes)
      (todo : List (Op UInt8))
  | judge (p : Bytes) (written : Nat) (lastProgress : Int) (err : Err) (now : Int)
      (chunks : List Bytes) (todo : List (Op UInt8))
  | out (err : Option Err)
  deriving Repr, DecidableEq

/-- `Send`: the test of `codecBroken`, the codec writer's lock and section, and the three
steps of `codecIOError`. -/
inductive SendPc where
  | check
  | lock
  | sect (pc : Sect)
  | setBroken (r : Result)
  | closeSock (r : Result)
  | done (r : Result)
  deriving Repr, DecidableEq

inductive RecvPc where
  | check
  | read
  | codecReadError (r : RecvResult)
  | setBroken (r : RecvResult)
  | closeSock (r : RecvResult)
  | done (r : RecvResult)
  deriving Repr, DecidableEq

inductive ClosePc where
  | doOnce
  | setClosing
  | checkBroken
  | lock
  | sect (pc : Sect)
  | closeSock
  | finish
  deriving Repr, DecidableEq

/-- The calls, with what their rounds will come to, and `session.stop`. -/
inductive Thread where
  | send (arg : Arg) (late : Bool) (polls : List WritePoll) (pc : SendPc)
  | recv (outcome : RecvResult) (pc : RecvPc)
  | close (polls : List WritePoll) (pc : ClosePc)
  | stop
  deriving Repr, DecidableEq

/-! ## Steps -/

variable {κ : Type}

/-- The sink returns an error to the codec, which keeps it. -/
def Shared.abort (s : Shared κ) (err : Err) : Shared κ :=
  { s with latched := some err, aborted := true }

/-- `conn.Write` accepts some bytes. -/
def Shared.put (s : Shared κ) (b : Bytes) : Shared κ :=
  { s with wire := s.wire ++ b, rest := s.rest.drop b.length }

/-- The codec carries out an operation. -/
def Shared.encode (E : Encoder UInt8 κ) (s : Shared κ) (op : Op UInt8) : Shared κ :=
  { s with
    enc := (E.apply s.enc op).1
    log := s.log ++ [op]
    rest := s.rest ++ (E.apply s.enc op).2.flatten }

/-- One round of `codecPollingWriter.Write` up to the tests of a timeout. -/
def pollStep (s : Shared κ) (p : Bytes) (written : Nat) (last : Int) (chunks : List Bytes)
    (todo : List (Op UInt8)) : List WritePoll → List (Shared κ × List WritePoll × Sect)
  | [] => []
  | o :: os =>
      if 0 < o.wTimeout ∧ o.deadlineErr.isSome then
        let e := o.deadlineErr.getD .timeout
        [(s.abort e, os, .out (some e))]
      else
        let b := (p.drop written).take o.n
        let last := if b = [] then last else o.progressAt
        match o.err with
        | none => [(s.put b, os, .poll p (written + b.length) last chunks todo)]
        | some e =>
            if isTimeoutError e then
              [(s.put b, os, .judge p (written + b.length) last e o.testedAt chunks todo)]
            else [((s.put b).abort e, os, .out (some e))]

/-- One step in the critical section.  Every operation of the codec first looks at
`latched`; an empty script means that the socket does not answer. -/
def sectStep (cfg : Cfg) (E : Encoder UInt8 κ) (s : Shared κ) (polls : List WritePoll) :
    Sect → List (Shared κ × List WritePoll × Sect)
  | .next (p :: chunks) todo =>
      [(s, polls, .poll p 0 ((polls.head?.map WritePoll.startedAt).getD 0) chunks todo)]
  | .next [] (op :: todo) =>
      match s.latched with
      | some e => [(s, polls, .out (some e))]
      | none => [(s.encode E op, polls, .next (E.apply s.enc op).2 todo)]
  | .next [] [] => [(s, polls, .out none)]
  | .poll p written last chunks todo =>
      if written < p.length then pollStep s p written last chunks todo polls
      else [(s, polls, .next chunks todo)]
  | .judge p written last e now chunks todo =>
      if s.codecBroken || s.closing || s.sessionClosed then
        [(s.abort e, polls, .out (some e))]
      else if 0 < cfg.codecStallTimeout ∧ cfg.codecStallTimeout ≤ now - last then
        [(s.abort e, polls, .out (some e))]
      else [(s, polls, .poll p written last chunks todo)]
  | .out _ => []

/-- A `Send` knows what it returns. -/
def Shared.record (s : Shared κ) (r : Result) : Shared κ := { s with results := s.results ++ [r] }

/-- What `Send` makes of the section's error.  The count of a failed write is 0. -/
def Result.ofSect (arg : Arg) (late : Bool) : Option Err → Result
  | none => ⟨arg, late, arg.packages.flatten.length, none⟩
  | some e => ⟨arg, late, 0, some (codecIOError e)⟩

/-- `gettyTCPConn.Send` on a codec stream. -/
def sendStep (cfg : Cfg) (E : Encoder UInt8 κ) (s : Shared κ) (arg : Arg) (late : Bool)
    (polls : List WritePoll) : SendPc → List (Shared κ × List Thread)
  | .check =>
      if s.codecBroken then
        let r : Result := ⟨arg, s.aborted, 0, some .codecStreamBroken⟩
        [(s.record r, [.send arg s.aborted polls (.done r)])]
      else if arg = .other then
        let r : Result := ⟨arg, s.aborted, 0, some .illegalPkg⟩
        [(s.record r, [.send arg s.aborted polls (.done r)])]
      else [(s, [.send arg s.aborted polls .lock])]
  | .lock =>
      if s.lock then []
      else [({ s with lock := true },
        [.send arg late polls (.sect (.next [] (block arg.packages)))])]
  | .sect (.out err) =>
      let r := Result.ofSect arg late err
      let pc : SendPc := if err.any isTimeoutError then .setBroken r else .done r
      [({ s with lock := false }.record r, [.send arg late polls pc])]
  | .sect pc =>
      (sectStep cfg E s polls pc).map fun out =>
        (out.1, [.send arg late out.2.1 (.sect out.2.2)])
  | .setBroken r => [({ s with codecBroken := true }, [.send arg late polls (.closeSock r)])]
  | .closeSock r => [({ s with sockClosed := true }, [.send arg late polls (.done r)])]
  | .done _ => []

/-- `gettyTCPConn.recv` on a codec stream; `outcome` is what the decoder returns. -/
def recvStep (s : Shared κ) (outcome : RecvResult) : RecvPc → List (Shared κ × List Thread)
  | .check =>
      if s.codecBroken then [(s, [.recv outcome (.done ⟨0, some .codecStreamBroken⟩)])]
      else [(s, [.recv outcome .read])]
  | .read => [({ s with reads := s.reads + 1 }, [.recv outcome (.codecReadError outcome)])]
  | .codecReadError r =>
      if r.err.any isTimeoutError && !s.sessionClosed then
        [(s, [.recv outcome (.setBroken ⟨r.length, r.err.map codecIOError⟩)])]
      else [(s, [.recv outcome (.done r)])]
  | .setBroken r => [({ s with codecBroken := true }, [.recv outcome (.closeSock r)])]
  | .closeSock r => [({ s with sockClosed := true }, [.recv outcome (.done r)])]
  | .done _ => []

/-- `gettyTCPConn.CloseConn`.  A codec writer that has been closed keeps an error. -/
def closeStep (cfg : Cfg) (E : Encoder UInt8 κ) (s : Shared κ) (polls : List WritePoll) :
    ClosePc → List (Shared κ × List Thread)
  | .doOnce =>
      match s.closeOnce with
      | .fresh => [({ s with closeOnce := .running }, [.close polls .setClosing])]
      | .running => []
      | .finished => [(s, [])]
  | .setClosing => [({ s with closing := true }, [.close polls .checkBroken])]
  | .checkBroken =>
      if s.codecBroken then [(s, [.close polls .closeSock])] else [(s, [.close polls .lock])]
  | .lock =>
      if s.lock then []
      else [({ s with lock := true }, [.close polls (.sect (.next [] [.close]))])]
  | .sect (.out err) =>
      let latched := if err = none then some .writerClosed else s.latched
      [({ s with lock := false, latched := latched }, [.close polls .closeSock])]
  | .sect pc =>
      (sectStep cfg E s polls pc).map fun out => (out.1, [.close out.2.1 (.sect out.2.2)])
  | .closeSock => [({ s with sockClosed := true }, [.close polls .finish])]
  | .finish => [({ s with closeOnce := .finished }, [])]

/-- One step of a call. -/
def step (cfg : Cfg) (E : Encoder UInt8 κ) (s : Shared κ) :
    Thread → List (Shared κ × List Thread)
  | .send arg late polls pc => sendStep cfg E s arg late polls pc
  | .recv outcome pc => recvStep s outcome pc
  | .close polls pc => closeStep cfg E s polls pc
  | .stop => [({ s with sessionClosed := true }, [])]

/-- A call may be made at any time. -/
def entry : Thread → Bool
  | .send _ late _ .check => !late
  | .recv _ .check => true
  | .close _ .doOnce => true
  | .stop => true
  | _ => false

def prog (cfg : Cfg) (E : Encoder UInt8 κ) : Prog (Shared κ) Thread where
  entry _ := entry
  step := step cfg E

/-- The connection right after `SetCompressType`. -/
def initial (E : Encoder UInt8 κ) : Conf (Shared κ) Thread :=
  ⟨⟨false, false, false, false, .fresh, false, E.init, none, [], 0, false, [], [], []⟩, []⟩

end Getty.Transport.CodecConn
