import Getty.Transport.Basic

/-!
# The websocket receive loop and its limit

`handleWSPackage` with a `Reader` or without one, and the two limits that a message has to
pass.  The websocket library counts the bytes of a message on the wire, in compressed form
if it is compressed, against the limit of `SetReadLimit`; `threadSafeReadMessage` counts the
bytes that come out of the decompression.  Both are given the session's `maxMsgLen`.

A compressed message can be longer than its payload.  `SetCompressType(CompressNone)` even
makes sure of it: it sends stored blocks, each with a header of five bytes.

## Main results

* `recv_eq` — a message passes when its payload and its bytes on the wire are within the
  limit.
* `ws_limit_on_payload_iff` — when this is a limit on the payload alone.
-/

namespace Getty.Transport.Ws

variable {P : Type}

/-! ## The connection -/

/-- The errors of a read: `websocket.ErrReadLimit`, a timeout, or another one. -/
inductive ReadErr where
  | readLimit
  | timeout
  | other (msg : String)
  deriving Repr, DecidableEq

/-- A data message as it is on the wire.  `early` says how much of the payload has been
decompressed before the library sees that the wire exceeds its limit: it looks at the
length of each frame of the message. -/
structure Message where
  compressed : Bool
  wire : Bytes
  early : Nat
  deriving Repr, DecidableEq

/-- What the peer sent; `inflate` decompresses the payload of a message. -/
def Message.payload (inflate : Bytes → Option Bytes) (m : Message) : Option Bytes :=
  if m.compressed then inflate m.wire else some m.wire

/-- What `NextReader` meets: a message, or an error of the connection. -/
inductive Incoming where
  | message (m : Message)
  | failed (err : ReadErr)
  deriving Repr, DecidableEq

/-- What an `io.Reader` yields: its bytes, and then an error or EOF. -/
structure Source where
  data : Bytes
  err : Option ReadErr

/-- The reader of the next message, on a connection with a limit on the wire; zero is no
limit. -/
def nextReader (inflate : Bytes → Option Bytes) (readLimit : Int) : Incoming → Source
  | .failed err => ⟨[], some err⟩
  | .message m =>
      match m.payload inflate with
      | none => ⟨[], some (.other "flate: corrupt input")⟩
      | some payload =>
          if 0 < readLimit ∧ readLimit < m.wire.length then
            ⟨payload.take m.early, some .readLimit⟩
          else ⟨payload, none⟩

/-- `io.LimitReader`: EOF after `n` bytes. -/
def Source.limit (n : Nat) (s : Source) : Source :=
  if n ≤ s.data.length then ⟨s.data.take n, none⟩ else s

/-- `io.ReadAll`. -/
def readAll (s : Source) : Except ReadErr Bytes :=
  match s.err with
  | some err => .error err
  | none => .ok s.data

/-- `threadSafeReadMessage`. -/
def threadSafeReadMessage (inflate : Bytes → Option Bytes) (readLimit maxMsgLen : Int)
    (x : Incoming) : Except ReadErr Bytes :=
  let reader := nextReader inflate readLimit x
  let reader := if 0 < maxMsgLen then reader.limit (maxMsgLen + 1).toNat else reader
  match readAll reader with
  | .error err => .error err
  | .ok readBytes =>
      if 0 < maxMsgLen ∧ maxMsgLen < readBytes.length then .error .readLimit else .ok readBytes

/-- `gettyWSConn.recv`. -/
def recv (inflate : Bytes → Option Bytes) (readLimit maxMsgLen : Int) (x : Incoming) :
    Except ReadErr Bytes :=
  threadSafeReadMessage inflate readLimit maxMsgLen x

/-- With a limit, what is read is at most as long, or the message is rejected: the extra
byte of the `LimitReader` tells a message at the limit from a longer one. -/
private theorem threadSafeReadMessage_eq (inflate : Bytes → Option Bytes) (readLimit : Int)
    {maxMsgLen : Int} (h : 0 < maxMsgLen) (x : Incoming) :
    threadSafeReadMessage inflate readLimit maxMsgLen x =
      if maxMsgLen < (nextReader inflate readLimit x).data.length then .error .readLimit
      else readAll (nextReader inflate readLimit x) := by
  have hbound : ((maxMsgLen + 1).toNat : Int) = maxMsgLen + 1 := Int.toNat_of_nonneg (by omega)
  simp only [threadSafeReadMessage, h, if_true, true_and, Source.limit]
  generalize nextReader inflate readLimit x = reader
  by_cases hlong : maxMsgLen < reader.data.length
  · have htake : ((reader.data.take (maxMsgLen + 1).toNat).length : Int) = maxMsgLen + 1 := by
      rw [List.length_take]
      omega
    rw [if_pos hlong, if_pos (by omega)]
    show (if maxMsgLen < (reader.data.take (maxMsgLen + 1).toNat).length then _ else _) = _
    exact if_pos (by omega)
  · rw [if_neg hlong, if_neg (by omega)]
    cases herr : reader.err with
    | some err => simp only [readAll, herr]
    | none => simp only [readAll, herr, if_neg hlong]

/-- The bytes on the wire count as well as the payload. -/
theorem recv_eq (inflate : Bytes → Option Bytes) {limit : Int} {m : Message} {payload : Bytes}
    (hlimit : 0 < limit) (hpayload : m.payload inflate = some payload) :
    recv inflate limit limit (.message m) =
      if (payload.length : Int) ≤ limit ∧ (m.wire.length : Int) ≤ limit then .ok payload
      else .error .readLimit := by
  rw [recv, threadSafeReadMessage_eq inflate limit hlimit]
  by_cases hwire : (m.wire.length : Int) ≤ limit
  · have hsource : nextReader inflate limit (.message m) = ⟨payload, none⟩ := by
      simp only [nextReader, hpayload]
      exact if_neg (by omega)
    rw [hsource]
    by_cases hlen : (payload.length : Int) ≤ limit
    · simp only [hlen, hwire, and_self, if_true, Int.not_lt.mpr hlen, if_false]
      rfl
    · simp only [hlen, false_and, if_false, Int.not_le.mp hlen, if_true]
  · have hsource : nextReader inflate limit (.message m) =
        ⟨payload.take m.early, some .readLimit⟩ := by
      simp only [nextReader, hpayload]
      exact if_pos (by omega)
    simp only [hsource, hwire, and_false, if_false]
    -- whichever limit is noticed first, the error is the same
    split <;> rfl

/-! ## The loop -/

/-- What `addTask` gets: the message itself, or what the `Reader` made of it (`none` for a
nil package). -/
inductive Item (P : Type) where
  | raw (pkg : Bytes)
  | decoded (pkg : Option P)
  deriving Repr, DecidableEq

/-- The session as the loop meets it: its connection, the answers of its `Reader` by the
number of the call, and whether `addTask` finds the session open with a listener after a
number of messages. -/
structure Env (P : Type) where
  inflate : Bytes → Option Bytes
  readLimit : Int
  reader : Option (Nat → Bytes → ReadResult P)
  taskOpen : Nat → Bool

/-- The messages handed to the `Reader`, or to `addTask` when there is none, and the
packages that reached `OnMessage`. -/
structure State (P : Type) where
  handed : List Bytes
  messages : List (Item P)

def State.init : State P := ⟨[], []⟩

/-- One turn of the loop: what `IsClosed` answers, the snapshot of `s.maxMsgLen`, and what
`recv` meets. -/
structure Round where
  closed : Bool
  maxMsgLen : Int
  incoming : Incoming

/-- How far a run of the loop got. -/
inductive Outcome (P : Type) where
  | returned (err : Option ReadErr) (st : State P)
  /-- All rounds are used up and the loop wants another one. -/
  | blocked (st : State P)

/-- What is handed to `addTask` after `recv` returned `pkg`, when `k` messages were received
before it. -/
def Env.item (env : Env P) (maxMsgLen : Int) (k : Nat) (pkg : Bytes) : Option (Item P) :=
  match env.reader with
  | none => some (.raw pkg)
  | some read =>
      let r := read k pkg
      if r.err.isSome ∨ 0 < maxMsgLen ∧ maxMsgLen < r.pkgLen then none
      else if r.pkg.isNone then none
      else some (.decoded r.pkg)

/-- A round in which `recv` returned `pkg`. -/
def State.receive (env : Env P) (maxMsgLen : Int) (st : State P) (pkg : Bytes) : State P :=
  { handed := st.handed ++ [pkg]
    messages :=
      match env.item maxMsgLen st.handed.length pkg with
      | none => st.messages
      | some item => addTask (env.taskOpen st.handed.length) item st.messages }

/-- `for !s.IsClosed() { ... }`. -/
def loop (env : Env P) : List Round → State P → Outcome P
  | [], st => .blocked st
  | r :: rs, st =>
      if r.closed then .returned none st
      else
        match recv env.inflate env.readLimit r.maxMsgLen r.incoming with
        | .error .timeout => loop env rs st
        | .error err => .returned (some err) st
        | .ok pkg => loop env rs (st.receive env r.maxMsgLen pkg)

def handleWSPackage (env : Env P) (rounds : List Round) : Outcome P :=
  loop env rounds State.init

def Outcome.state : Outcome P → State P
  | .returned _ st => st
  | .blocked st => st

/-- **Run lemma.**  A run over more rounds is the run so far, continued. -/
theorem loop_append (env : Env P) (pre post : List Round) (st : State P) :
    loop env (pre ++ post) st =
      match loop env pre st with
      | .blocked st' => loop env post st'
      | o => o := by
  induction pre generalizing st with
  | nil => rfl
  | cons r rs ih =>
      simp only [List.cons_append, loop]
      cases r.closed with
      | true => rfl
      | false =>
          simp only [Bool.false_eq_true, if_false]
          cases recv env.inflate env.readLimit r.maxMsgLen r.incoming with
          | ok pkg => exact ih _
          | error err =>
              cases err with
              | timeout => exact ih _
              | readLimit => rfl
              | other msg => rfl

/-! ## The limit of a session -/

inductive Endpoint where
  | client
  | server
  deriving Repr, DecidableEq

/-- `applyWSReadLimit`: the limit on the wire after it, for a session whose connection is a
websocket or not. -/
def applyWSReadLimit (isWS : Bool) (maxMsgLen readLimit : Int) : Int :=
  if isWS then (if 0 < maxMsgLen then maxMsgLen else readLimit) else readLimit

/-- The same in `serveWSRequest`, which has the websocket at hand. -/
def serveWSReadLimit (maxMsgLen readLimit : Int) : Int :=
  if 0 < maxMsgLen then maxMsgLen else readLimit

/-- The limit on the wire of a new session whose `NewSessionCallback` stored `maxMsgLen`.
The connection has no limit before. -/
def Endpoint.readLimit (maxMsgLen : Int) : Endpoint → Int
  | .client => applyWSReadLimit true maxMsgLen 0
  | .server => serveWSReadLimit maxMsgLen 0

private theorem readLimit_eq (ep : Endpoint) {maxMsgLen : Int} (h : 0 < maxMsgLen) :
    ep.readLimit maxMsgLen = maxMsgLen := by
  cases ep with
  | client => exact if_pos h
  | server => exact if_pos h

/-- One message on a session with a limit: it is handed on, or the loop ends. -/
private theorem handleWSPackage_message (ep : Endpoint) {length : Int} (hlength : 0 < length)
    (inflate : Bytes → Option Bytes) (reader : Option (Nat → Bytes → ReadResult P))
    (taskOpen : Nat → Bool) {pre : List Round} {st : State P} {m : Message} {payload : Bytes}
    (hpre : handleWSPackage ⟨inflate, ep.readLimit (normalizeMsgLen length), reader, taskOpen⟩
      pre = .blocked st)
    (hpayload : m.payload inflate = some payload) :
    handleWSPackage ⟨inflate, ep.readLimit (normalizeMsgLen length), reader, taskOpen⟩
        (pre ++ [⟨false, normalizeMsgLen length, .message m⟩]) =
      if (payload.length : Int) ≤ normalizeMsgLen length ∧
          (m.wire.length : Int) ≤ normalizeMsgLen length then
        .blocked (st.receive ⟨inflate, ep.readLimit (normalizeMsgLen length), reader, taskOpen⟩
          (normalizeMsgLen length) payload)
      else .returned (some .readLimit) st := by
  unfold handleWSPackage at hpre ⊢
  rw [loop_append, hpre]
  have hlimit := normalizeMsgLen_pos hlength
  simp only [loop, Bool.false_eq_true, if_false, readLimit_eq ep hlimit,
    recv_eq inflate hlimit hpayload]
  by_cases hpass : (payload.length : Int) ≤ normalizeMsgLen length ∧
      (m.wire.length : Int) ≤ normalizeMsgLen length
  · simp only [if_pos hpass]
  · simp only [if_neg hpass]

/-- **The receive limit.**  After any run that is still going, a message is handed on when
its payload and its bytes on the wire are within the limit, and ends the loop with
`ErrReadLimit` otherwise.  So it is a limit on the payload for exactly those messages that
do not come with a payload within the limit and more bytes than that on the wire. -/
theorem ws_limit_on_payload_iff (ep : Endpoint) (length : Int) (hlength : 0 < length)
    (inflate : Bytes → Option Bytes) (reader : Option (Nat → Bytes → ReadResult P))
    (taskOpen : Nat → Bool) (pre : List Round) (st : State P) (m : Message) (payload : Bytes)
    (hpre : handleWSPackage ⟨inflate, ep.readLimit (normalizeMsgLen length), reader, taskOpen⟩
      pre = .blocked st)
    (hpayload : m.payload inflate = some payload) :
    ((handleWSPackage ⟨inflate, ep.readLimit (normalizeMsgLen length), reader, taskOpen⟩
          (pre ++ [⟨false, normalizeMsgLen length, .message m⟩])).state.handed =
        st.handed ++ [payload] ∨
      handleWSPackage ⟨inflate, ep.readLimit (normalizeMsgLen length), reader, taskOpen⟩
          (pre ++ [⟨false, normalizeMsgLen length, .message m⟩]) =
        .returned (some .readLimit) st) ∧
    (((handleWSPackage ⟨inflate, ep.readLimit (normalizeMsgLen length), reader, taskOpen⟩
          (pre ++ [⟨false, normalizeMsgLen length, .message m⟩])).state.handed =
        st.handed ++ [payload] ↔ (payload.length : Int) ≤ length) ↔
      ((payload.length : Int) ≤ length →
        (payload.length : Int) ≤ normalizeMsgLen length ∧
          (m.wire.length : Int) ≤ normalizeMsgLen length)) := by
  rw [handleWSPackage_message ep hlength inflate reader taskOpen hpre hpayload]
  have hself := normalizeMsgLen_le_self hlength
  split
  · next hpass =>
      have hhanded : (Outcome.blocked (st.receive
          ⟨inflate, ep.readLimit (normalizeMsgLen length), reader, taskOpen⟩
          (normalizeMsgLen length) payload)).state.handed = st.handed ++ [payload] := rfl
      refine ⟨Or.inl hhanded, ?_⟩
      have hle : (payload.length : Int) ≤ length := Int.le_trans hpass.1 hself
      simp only [hhanded, hle, hpass, true_imp_iff, and_self]
  · next hfail =>
      have hhanded : ¬ (Outcome.returned (some .readLimit) st).state.handed =
          st.handed ++ [payload] := by
        show st.handed ≠ _
        simp
      refine ⟨Or.inr rfl, ?_⟩
      simp only [hhanded, hfail, false_iff, imp_false]

/-- An uncompressed message of a length the session can store passes by its payload. -/
theorem ws_limit_on_payload_plain :
    (@handleWSPackage Unit ⟨some, Endpoint.server.readLimit (normalizeMsgLen 2), none,
        fun _ => true⟩ [⟨false, normalizeMsgLen 2, .message ⟨false, [7, 7], 0⟩⟩]).state.handed =
      [[7, 7]] := by
  have h := @ws_limit_on_payload_iff Unit .server 2 (by decide) some none (fun _ => true)
    [] State.init ⟨false, [7, 7], 0⟩ [7, 7] rfl rfl
  exact (h.2.mpr (by decide)).mpr (by decide)

/-! ## Stored blocks -/

/-- The decompression of stored blocks, each with a header of one byte for the kind of the
block, its length and the complement of its length. -/
def inflateStored : Nat → Bytes → Option Bytes
  | 0, _ => none
  | fuel + 1, kind :: len0 :: len1 :: nlen0 :: nlen1 :: rest =>
      let len := len0.toNat + 256 * len1.toNat
      if nlen0.toNat + 256 * nlen1.toNat = 65535 - len ∧ len ≤ rest.length then
        if kind = 1 then some (rest.take len)
        else if kind = 0 then
          (inflateStored fuel (rest.drop len)).map (rest.take len ++ ·)
        else none
      else none
  | _, _ => none

/-- The library appends the end of the last block, which is not sent, and a final one. -/
def flateTail : Bytes := [0x00, 0x00, 0xff, 0xff, 0x01, 0x00, 0x00, 0xff, 0xff]

def inflate (wire : Bytes) : Option Bytes :=
  inflateStored (wire ++ flateTail).length (wire ++ flateTail)

/-- The message `a` in a stored block takes seven bytes.  A session with a limit of one byte
does not get it. -/
theorem small_message_rejected :
    Message.payload inflate ⟨true, [0x00, 0x01, 0x00, 0xfe, 0xff, 0x61, 0x00], 0⟩ =
      some [0x61] ∧
    ∀ ep : Endpoint,
      @handleWSPackage Unit ⟨inflate, ep.readLimit (normalizeMsgLen 1), none,
          fun _ => true⟩
        [⟨false, normalizeMsgLen 1,
          .message ⟨true, [0x00, 0x01, 0x00, 0xfe, 0xff, 0x61, 0x00], 0⟩⟩] =
      .returned (some .readLimit) State.init := by
  refine ⟨rfl, fun ep => ?_⟩
  cases ep <;> rfl

end Getty.Transport.Ws
