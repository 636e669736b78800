import Getty.Transport.CodecConn
import Getty.Transport.TcpLimit

/-!
# The read loop on a codec stream

A decoder keeps the first error of its source, so a `recv` that has failed must be the last one.
`handleTCPPackage` does not know about codecs: it ends on `io.EOF` and on most errors, but it
retries a `net.Error` that is a timeout.  Whether it does is decided by three functions of the
connection and by two tests for a timeout that look at an error in different ways:
`isTimeoutError` follows `Unwrap` to the first `net.Error`, and the loop follows `Cause` to the
innermost error.

Errors are modelled with the methods that these tests use.  What the decoder returns is arbitrary.
`Close` may come between any two observations of the loop; as it is not taken back, an
interleaving is given by the first observation that finds the session closed.

## Main results

* `isTimeoutError_of_classify` — what the loop takes for a timeout is one for the connection.
* `classify_codecReadError` — a timeout can be retried only if the session is closed.
* `latched_decoder_not_read` — `recv` is not called again after an error.
-/

namespace Getty.Transport.CodecLoop

open Getty.Transport.Tcp (Env State Round recvRound recvEvents loopEvents)

variable {P : Type}

/-! ## Errors -/

/-- An error: without methods of its own, `io.EOF`, `os.ErrDeadlineExceeded`, a `net.Error`, a
`net.Error` that can be unwrapped (`*net.OpError`, the errors of `crypto/tls`), an error with
`Unwrap`, and the two wrappers of `perrors`, which have `Unwrap` and `Cause`. -/
inductive GoErr where
  | plain (msg : String)
  | eof
  | deadlineExceeded
  | net (timeout : Bool) (msg : String)
  | netWrap (timeout : Bool) (msg : String) (inner : GoErr)
  | wrap (msg : String) (inner : GoErr)
  | withStack (inner : GoErr)
  | withMessage (msg : String) (inner : GoErr)
  deriving Repr, DecidableEq

/-- `ErrCodecStreamBroken`. -/
def errCodecStreamBroken : GoErr :=
  .plain "getty: codec stream is broken, connection must be closed"

namespace GoErr

/-- `Error()`. -/
def text : GoErr → String
  | plain msg => msg
  | eof => "EOF"
  | deadlineExceeded => "i/o timeout"
  | net _ msg => msg
  | netWrap _ msg inner => msg ++ ": " ++ inner.text
  | wrap msg inner => msg ++ ": " ++ inner.text
  | withStack inner => inner.text
  | withMessage msg inner => msg ++ ": " ++ inner.text

/-- `Timeout()`, if the error is a `net.Error`. -/
def netTimeout : GoErr → Option Bool
  | deadlineExceeded => some true
  | net timeout _ => some timeout
  | netWrap timeout _ _ => some timeout
  | _ => none

/-- `Timeout()` of the first `net.Error` that `errors.As` finds. -/
def asNetError : GoErr → Option Bool
  | wrap _ inner => inner.asNetError
  | withStack inner => inner.asNetError
  | withMessage _ inner => inner.asNetError
  | e => e.netTimeout

/-- `errors.Is(err, os.ErrDeadlineExceeded)`. -/
def isDeadlineExceeded : GoErr → Bool
  | deadlineExceeded => true
  | netWrap _ _ inner => inner.isDeadlineExceeded
  | wrap _ inner => inner.isDeadlineExceeded
  | withStack inner => inner.isDeadlineExceeded
  | withMessage _ inner => inner.isDeadlineExceeded
  | _ => false

/-- `perrors.Cause`. -/
def cause : GoErr → GoErr
  | withStack inner => inner.cause
  | withMessage _ inner => inner.cause
  | e => e

end GoErr

/-! ## The source -/

def isTimeoutError (err : GoErr) : Bool :=
  err.asNetError == some true || err.isDeadlineExceeded

/-- The error of `codecIOError`, which also latches the connection if it is a timeout. -/
def codecIOError (err : GoErr) : GoErr :=
  if !isTimeoutError err then .withStack err
  else .withStack (.withMessage ("codec stream stalled: " ++ err.text) errCodecStreamBroken)

def codecReadError (sessionClosing : Bool) (err : GoErr) : GoErr :=
  if isTimeoutError err && sessionClosing then .withStack err else codecIOError err

/-- What a call of `recv` meets: whether the stream is broken, and what the decoder returns. -/
structure Answer where
  codecBroken : Bool
  data : Bytes
  err : Option GoErr
  deriving Repr, DecidableEq

/-- `gettyTCPConn.recv` with a codec; no deadline is set there. -/
def recv (sessionClosing : Bool) (a : Answer) : Bytes × Option GoErr :=
  if a.codecBroken then ([], some (.withStack errCodecStreamBroken))
  else (a.data, a.err.map (codecReadError sessionClosing))

/-- How `handleTCPPackage` tells the errors of `recv` apart. -/
def classify (err : GoErr) : RecvErr :=
  if err.cause.netTimeout = some true then .timeout
  else if err.cause = .eof then .eof
  else .other err.text

/-- The answer of `IsClosed` at the `k`-th place where the loop or the connection asks.  `closeAt`
is the first place after a `Close`. -/
def observed (closeAt : Option Nat) (k : Nat) : Bool := closeAt.any fun n => decide (n ≤ k)

/-- A turn of the outer loop asks for the first time before `recv`, and for the second time in
it. -/
def round (closeAt : Option Nat) (k : Nat) (a : Answer) : Round where
  closed := observed closeAt (2 * k)
  recv :=
    let out := recv (observed closeAt (2 * k + 1)) a
    ⟨out.1, out.2.map classify⟩

/-- The turns from the `k`-th one on. -/
def rounds (closeAt : Option Nat) : Nat → List Answer → List Round
  | _, [] => []
  | k, a :: as => round closeAt k a :: rounds closeAt (k + 1) as

/-! ## Two tests for a timeout -/

private theorem asNetError_of_cause {e : GoErr} (h : e.cause.netTimeout = some true) :
    e.asNetError = some true := by
  induction e with
  | withStack inner ih => exact ih h
  | withMessage msg inner ih => exact ih h
  | wrap msg inner => cases h
  | plain msg => cases h
  | eof => cases h
  | deadlineExceeded => rfl
  | net timeout msg => exact h
  | netWrap timeout msg inner => exact h

/-- **What the loop takes for a timeout is one for the connection.** -/
theorem isTimeoutError_of_classify {e : GoErr} (h : classify e = .timeout) :
    isTimeoutError e = true := by
  have hcause : e.cause.netTimeout = some true := by
    unfold classify at h
    split at h
    · next htimeout => exact htimeout
    · split at h
      · cases h
      · cases h
  simp [isTimeoutError, asNetError_of_cause hcause]

/-- **A timeout can be retried only if the session is closed.** -/
theorem classify_codecReadError {sessionClosing : Bool} {e : GoErr}
    (h : classify (codecReadError sessionClosing e) = .timeout) : sessionClosing = true := by
  cases sessionClosing with
  | true => rfl
  | false =>
      exfalso
      rw [codecReadError, Bool.and_false, if_neg Bool.false_ne_true, codecIOError] at h
      cases htimeout : isTimeoutError e with
      | true =>
          rw [htimeout] at h
          have hbroken := isTimeoutError_of_classify h
          cases hbroken
      | false =>
          rw [htimeout] at h
          have hinner : isTimeoutError e = true := isTimeoutError_of_classify h
          cases htimeout.symm.trans hinner

theorem classify_recv {sessionClosing : Bool} {a : Answer} {e : GoErr}
    (herr : (recv sessionClosing a).2 = some e) (h : classify e = .timeout) :
    sessionClosing = true := by
  unfold recv at herr
  split at herr
  · cases herr
    cases h
  · obtain ⟨e', -, rfl⟩ := Option.map_eq_some_iff.mp herr
    exact classify_codecReadError h

/-- The error as `CodecConn` has it, which leaves the texts out. -/
def kind (e : GoErr) : CodecConn.Err :=
  if isTimeoutError e then .timeout
  else if e.cause = .eof then .eof
  else if e.cause = errCodecStreamBroken then .codecStreamBroken
  else .other 0

theorem isTimeoutError_kind (e : GoErr) : CodecConn.isTimeoutError (kind e) = isTimeoutError e := by
  unfold kind
  cases isTimeoutError e with
  | true => rfl
  | false =>
      simp only [Bool.false_eq_true, if_false]
      split
      · rfl
      · split
        · rfl
        · rfl

/-- `codecReadError` is the one of `CodecConn`. -/
private theorem kind_codecReadError (sessionClosing : Bool) (e : GoErr) :
    kind (codecReadError sessionClosing e) =
      if CodecConn.isTimeoutError (kind e) && !sessionClosing then
        CodecConn.codecIOError (kind e)
      else kind e := by
  have hstack : kind (.withStack e) = kind e := rfl
  rw [CodecConn.codecIOError, isTimeoutError_kind, codecReadError, codecIOError]
  cases htimeout : isTimeoutError e with
  | false => simp [hstack]
  | true =>
      cases sessionClosing with
      | true => simp [hstack]
      | false =>
          simp only [Bool.and_false, Bool.false_eq_true, if_false, Bool.not_true, Bool.not_false,
            Bool.and_true, if_true]
          simp [kind, isTimeoutError, GoErr.asNetError, GoErr.isDeadlineExceeded, GoErr.cause,
            GoErr.netTimeout, errCodecStreamBroken]

/-! ## The calls of `recv` -/

/-- What the calls of `recv` in a run of the loop return. -/
def recvs (env : Env P) (fuel : Nat) : List Round → State P → List RecvResult
  | [], _ => []
  | r :: rs, st =>
      if r.closed then []
      else
        r.recv ::
          match recvRound env fuel r.recv st with
          | .ok st' => if st'.exit then [] else recvs env fuel rs st'
          | .panicked _ => []
          | .outOfFuel => []

/-- The bytes of a `recv` event. -/
def recvData : Tcp.Event → Option Bytes
  | .recv data => some data
  | _ => none

/-- Decoding receives nothing. -/
private theorem decodeRun_recvData {env : Env P} {st : State P} {d : Tcp.Decoded P}
    {events : List Tcp.Event} (h : Tcp.DecodeRun env st d events) :
    events.filterMap recvData = [] := by
  induction h with
  | empty hnil => rfl
  | outOfFuel => rfl
  | rejected hcheck => rfl
  | stalled hcheck hpkg => rfl
  | negative hcheck hpkg => rfl
  | package hcheck hpkg hrest hrun ih => exact ih

/-- The calls are the `recv` events of the trace. -/
private theorem recvs_data (env : Env P) (fuel : Nat) (rs : List Round) (st : State P) :
    (recvs env fuel rs st).map RecvResult.data =
      (loopEvents env fuel rs st).filterMap recvData := by
  induction rs generalizing st with
  | nil => rfl
  | cons r rs ih =>
      rw [recvs, loopEvents]
      by_cases hclosed : r.closed = true
      · rw [if_pos hclosed, if_pos hclosed]
        rfl
      · rw [if_neg hclosed, if_neg hclosed, List.map_cons, List.filterMap_append]
        have hround : (recvEvents env fuel r.recv st).filterMap recvData = [r.recv.data] := by
          rw [recvEvents, List.filterMap_cons_some (show recvData (.recv r.recv.data) = _ from rfl)]
          split
          · rfl
          · exact congrArg (List.cons _)
              (decodeRun_recvData (Tcp.decode_run env fuel (st.buffer r.recv.data)))
        rw [hround, List.singleton_append]
        cases recvRound env fuel r.recv st with
        | ok st' =>
            simp only
            split
            · rfl
            · rw [ih]
        | panicked messages => rfl
        | outOfFuel => rfl

/-- The `i`-th call is made exactly if the loop waits after `i` rounds and then finds the session
open.  The induction is on the rounds. -/
private theorem recvs_getElem (env : Env P) (fuel : Nat) (rs : List Round) (st : State P) (i : Nat)
    (x : RecvResult) :
    (recvs env fuel rs st)[i]? = some x ↔
      (∃ st', Tcp.loop env fuel (rs.take i) st = .blocked st') ∧
        ∃ r, rs[i]? = some r ∧ r.closed = false ∧ r.recv = x := by
  induction rs generalizing st i with
  | nil => simp [recvs]
  | cons r rs ih =>
      rw [recvs]
      by_cases hclosed : r.closed = true
      · rw [if_pos hclosed]
        cases i with
        | zero => simp [hclosed]
        | succ i => simp [Tcp.loop, hclosed]
      · rw [if_neg hclosed]
        cases i with
        | zero => simp [Tcp.loop, Bool.not_eq_true _ ▸ hclosed]
        | succ i =>
            rw [List.getElem?_cons_succ, List.getElem?_cons_succ, List.take_succ_cons, Tcp.loop,
              if_neg hclosed]
            cases recvRound env fuel r.recv st with
            | ok st' =>
                simp only
                split
                · simp
                · exact ih st' i
            | panicked messages => simp
            | outOfFuel => simp

/-- A round whose error is no timeout is the last one. -/
theorem recvRound_exit {env : Env P} {fuel : Nat} {rc : RecvResult} {st st' : State P} {e : RecvErr}
    (herr : rc.err = some e) (he : e ≠ .timeout) (h : recvRound env fuel rc st = .ok st') :
    st'.exit = true := by
  have hexit : (st.afterRecv rc.err).exit = true := by
    rw [herr]
    cases e with
    | timeout => exact absurd rfl he
    | eof => rfl
    | other msg => rfl
  unfold recvRound at h
  split at h
  · cases h
    exact hexit
  · exact Tcp.decode_exit env fuel ((st.afterRecv rc.err).buffer rc.data) st' hexit h

private theorem observed_mono {closeAt : Option Nat} {k k' : Nat} (hle : k ≤ k')
    (h : observed closeAt k = true) : observed closeAt k' = true := by
  cases closeAt with
  | none => cases h
  | some n =>
      simp only [observed, Option.any_some, decide_eq_true_eq] at h ⊢
      omega

/-- A session that is closed before a turn receives nothing more. -/
private theorem recvs_rounds_closed (env : Env P) (fuel : Nat) {closeAt : Option Nat} {k : Nat}
    (as : List Answer) (st : State P) (h : observed closeAt (2 * k) = true) :
    recvs env fuel (rounds closeAt k as) st = [] := by
  cases as with
  | nil => rfl
  | cons a as => rw [rounds, recvs, if_pos (show (round closeAt k a).closed = true from h)]

/-- **Step lemma.**  After a turn whose `recv` fails, nothing more is received: the loop ends, or
it finds the session closed. -/
theorem recvs_after_error (env : Env P) (fuel : Nat) {closeAt : Option Nat} {k : Nat} {a : Answer}
    (as : List Answer) {st st' : State P}
    (herr : (round closeAt k a).recv.err ≠ none)
    (h : recvRound env fuel (round closeAt k a).recv st = .ok st') (hexit : st'.exit ≠ true) :
    recvs env fuel (rounds closeAt (k + 1) as) st' = [] := by
  obtain ⟨e, he⟩ := Option.ne_none_iff_exists'.mp herr
  by_cases htimeout : e = .timeout
  · subst htimeout
    obtain ⟨err, hrecv, hclass⟩ := Option.map_eq_some_iff.mp he
    have hclosing := classify_recv hrecv hclass
    exact recvs_rounds_closed env fuel as st' (observed_mono (by omega) hclosing)
  · exact absurd (recvRound_exit he htimeout h) hexit

/-- **Run lemma.**  The induction is on the turns. -/
theorem recvs_error_last (env : Env P) (fuel : Nat) (closeAt : Option Nat) (k : Nat)
    (as : List Answer) (st : State P) {pre post : List RecvResult} {x : RecvResult}
    (h : recvs env fuel (rounds closeAt k as) st = pre ++ x :: post) (hx : x.err ≠ none) :
    post = [] := by
  induction as generalizing k st pre with
  | nil =>
      rw [rounds, recvs] at h
      simp at h
  | cons a as ih =>
      rw [rounds, recvs] at h
      split at h
      · simp at h
      · cases hround : recvRound env fuel (round closeAt k a).recv st with
        | ok st' =>
            rw [hround] at h
            cases pre with
            | nil =>
                obtain ⟨rfl, rfl⟩ := List.cons.inj h
                simp only
                split
                · rfl
                · next hexit => exact recvs_after_error env fuel as hx hround hexit
            | cons y pre =>
                have htail := (List.cons.inj h).2
                simp only at htail
                split at htail
                · simp at htail
                · exact ih (k + 1) st' htail
        | panicked messages =>
            rw [hround] at h
            cases pre with
            | nil => exact ((List.cons.inj h).2).symm
            | cons y pre => simp at h
        | outOfFuel =>
            rw [hround] at h
            cases pre with
            | nil => exact ((List.cons.inj h).2).symm
            | cons y pre => simp at h

/-- What the calls of `recv` return in a run of `handleTCPPackage`. -/
def received (env : Env P) (fuel : Nat) (handshake : Option String) (rs : List Round) :
    List RecvResult :=
  match handshake with
  | some _ => []
  | none => recvs env fuel rs State.init

/-- **A latched decoder is not read again.**  For every `Reader`, every behaviour of the decoder
and of the socket below it, and a `Close` at any place or none: `recv` is called for the `i`-th
time exactly if `handleTCPPackage` waits after `i` rounds and then finds the session open, and the
calls are the `recv` events of the trace.  The first call that returns an error is the last one,
and one that returns a timeout which the loop would retry has found the session closed.  But for
their texts the errors are those of `CodecConn`. -/
theorem latched_decoder_not_read (env : Env P) (fuel : Nat) (handshake : Option String)
    (closeAt : Option Nat) (as : List Answer) :
    (∀ i x, (received env fuel handshake (rounds closeAt 0 as))[i]? = some x ↔
      (∃ st, Tcp.handleTCPPackage env fuel handshake ((rounds closeAt 0 as).take i) = .blocked st) ∧
        ∃ r, (rounds closeAt 0 as)[i]? = some r ∧ r.closed = false ∧ r.recv = x) ∧
    (received env fuel handshake (rounds closeAt 0 as)).map RecvResult.data =
      (Tcp.trace env fuel handshake (rounds closeAt 0 as)).filterMap recvData ∧
    (∀ pre x post, received env fuel handshake (rounds closeAt 0 as) = pre ++ x :: post →
      x.err ≠ none → post = []) ∧
    (∀ k a e, as[k]? = some a → (recv (observed closeAt (2 * k + 1)) a).2 = some e →
      classify e = .timeout → observed closeAt (2 * k + 1) = true) ∧
    ∀ sessionClosing e, kind (codecReadError sessionClosing e) =
      if CodecConn.isTimeoutError (kind e) && !sessionClosing then
        CodecConn.codecIOError (kind e)
      else kind e := by
  refine ⟨?_, ?_, ?_, fun k a e _ herr hclass => classify_recv herr hclass, kind_codecReadError⟩
  · intro i x
    cases handshake with
    | some msg => simp [received, Tcp.handleTCPPackage]
    | none => exact recvs_getElem env fuel _ _ i x
  · cases handshake with
    | some msg => rfl
    | none => exact recvs_data env fuel _ _
  · intro pre x post h hx
    cases handshake with
    | some msg => simp [received] at h
    | none => exact recvs_error_last env fuel closeAt 0 as State.init h hx

/-- The second `recv` times out while the session is being closed, so the loop would retry it.
There is no third one. -/
theorem latched_decoder_not_read_closing :
    let calls := received ⟨fun _ _ => ⟨some (), 1, none⟩, fun _ => 0, fun _ => true⟩ 1 none
      (rounds (some 3) 0 [⟨false, [], none⟩, ⟨false, [], some (.net true "i/o timeout")⟩,
        ⟨false, [7], none⟩])
    calls[1]? = some ⟨[], some .timeout⟩ ∧ calls.drop 2 = [] ∧ observed (some 3) 3 = true := by
  intro calls
  have hread := latched_decoder_not_read
    (⟨fun _ _ => ⟨some (), 1, none⟩, fun _ => 0, fun _ => true⟩ : Env Unit) 1 none (some 3)
    [⟨false, [], none⟩, ⟨false, [], some (.net true "i/o timeout")⟩, ⟨false, [7], none⟩]
  have hsecond := (hread.1 1 ⟨[], some .timeout⟩).mpr
    ⟨⟨_, rfl⟩, round (some 3) 1 ⟨false, [], some (.net true "i/o timeout")⟩, rfl, rfl, rfl⟩
  exact ⟨hsecond, hread.2.2.1 (calls.take 1) ⟨[], some .timeout⟩ (calls.drop 2) rfl (by decide),
    hread.2.2.2.1 1 _ (.withStack (.net true "i/o timeout")) rfl rfl rfl⟩

end Getty.Transport.CodecLoop
