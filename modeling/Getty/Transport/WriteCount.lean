import Getty.Transport.Basic
import Mathlib.Data.List.Basic

/-!
# What a write call reports

`WriteBytes`, `WriteBytesArray`, `WritePkg` and `Send` of one open session, as far as
their results depend on what the connection does.  The connection is an oracle: a list
with the outcome of each operation on the socket, full when the list has run out.  What
it has accepted, and whether it has refused anything, is recorded next to it.

A failed operation on a raw connection leaves part of what it was offered out, and a
failed `WriteMessage` delivers nothing.  A codec reports nothing for a failed write,
however much of it has reached the socket.

Each function is specified by one relation, `Wrote`: what it adds to the accepted bytes
is a prefix of its input, as long as its count says, all of it when it reports no error
and less than all when it does.  The loops are chained by `Wrote.seq` and `Wrote.stop`.

## Main results

* `run_wrote` — the specification of the four calls.
* `run_delivered` — a websocket delivers whole packages.
* `write_count_exact` — the reported count is exactly what was delivered.
-/

namespace Getty.Transport.WriteCount

/-! ## The connection -/

/-- A `gettyTCPConn` over a `*net.TCPConn` or over another `net.Conn`, a `gettyTCPConn`
with a codec, and a `gettyWSConn`. -/
inductive Kind where
  | tcp
  | stream
  | codec
  | ws
  deriving Repr, DecidableEq

def Kind.type : Kind → ConnType
  | .ws => .ws
  | _ => .tcp

/-- The connection and the fields of the session that a write reads. -/
structure Cfg where
  kind : Kind
  wTimeout : Int
  maxWriteMsgLen : Int
  deriving Repr, DecidableEq

/-- The outcome of one operation on the socket: it succeeds, or fails after at most `k`
bytes. -/
inductive Outcome where
  | full
  | failed (k : Nat)
  deriving Repr, DecidableEq

/-- The argument of `conn.Send`. -/
inductive Arg where
  | bytes (b : Bytes)
  | buffers (bs : List Bytes)
  | other
  deriving Repr, DecidableEq

/-- The errors of a call: `ErrSessionClosed`, an error of the `Writer`, the websocket
limit, a package of the wrong type, and an error of the connection. -/
inductive WriteErr where
  | sessionClosed
  | encode (msg : String)
  | tooLarge (n : Nat) (limit : Int)
  | illegalType
  | deadline
  | conn
  deriving Repr, DecidableEq

/-- The outcomes still to come, and what the connection has accepted and refused. -/
structure State where
  outcomes : List Outcome
  accepted : Bytes
  refused : Bool
  deriving Repr, DecidableEq

/-- The count and the error of a call. -/
structure Result where
  count : Nat
  err : Option WriteErr
  deriving Repr, DecidableEq

/-- Something is refused before it reaches the socket. -/
def State.refuse (st : State) (e : WriteErr) (count : Nat) : Result × State :=
  (⟨count, some e⟩, { st with refused := true })

/-- `conn.Write`, or one `writev`.  A failure leaves at least one byte out. -/
def State.write (st : State) (b : Bytes) : Result × State :=
  match st.outcomes with
  | .failed k :: os =>
      let x := b.take (min k (b.length - 1))
      (⟨x.length, some .conn⟩, ⟨os, st.accepted ++ x, true⟩)
  | .full :: os => (⟨b.length, none⟩, ⟨os, st.accepted ++ b, st.refused⟩)
  | [] => (⟨b.length, none⟩, ⟨[], st.accepted ++ b, st.refused⟩)

/-- `conn.SetWriteDeadline`. -/
def State.setWriteDeadline (st : State) : Option WriteErr × State :=
  match st.outcomes with
  | .failed _ :: os => (some .deadline, ⟨os, st.accepted, true⟩)
  | .full :: os => (none, ⟨os, st.accepted, st.refused⟩)
  | [] => (none, st)

/-- The critical section of a codec writer.  Every failure reports 0. -/
def State.writeCodec (st : State) (b : Bytes) : Result × State :=
  match st.outcomes with
  | .failed k :: os => (⟨0, some .conn⟩, ⟨os, st.accepted ++ b.take k, true⟩)
  | .full :: os => (⟨b.length, none⟩, ⟨os, st.accepted ++ b, st.refused⟩)
  | [] => (⟨b.length, none⟩, ⟨[], st.accepted ++ b, st.refused⟩)

/-- `threadSafeWriteMessage` of one binary message; a deadline that cannot be set is only
logged. -/
def State.writeMessage (st : State) (p : Bytes) : Result × State :=
  match st.outcomes with
  | .failed _ :: os => (⟨0, some .conn⟩, ⟨os, st.accepted, true⟩)
  | .full :: os => (⟨p.length, none⟩, ⟨os, st.accepted ++ p, st.refused⟩)
  | [] => (⟨p.length, none⟩, ⟨[], st.accepted ++ p, st.refused⟩)

/-- `net.Buffers.WriteTo` on a connection without `writev`; `n` bytes are written. -/
def State.writeTo (st : State) (n : Nat) : List Bytes → Result × State
  | [] => (⟨n, none⟩, st)
  | b :: bs =>
      match st.write b with
      | (⟨k, some e⟩, st) => (⟨n + k, some e⟩, st)
      | (⟨k, none⟩, st) => st.writeTo (n + k) bs

/-- The write deadline of a raw connection. -/
def armDeadline (cfg : Cfg) (st : State) : Option WriteErr × State :=
  if cfg.kind ≠ .codec ∧ 0 < cfg.wTimeout then st.setWriteDeadline else (none, st)

/-- `gettyTCPConn.Send` after the deadline. -/
def tcpSend (cfg : Cfg) (st : State) : Arg → Result × State
  | .bytes p => if cfg.kind = .codec then st.writeCodec p else st.write p
  | .buffers bs =>
      match cfg.kind with
      | .codec => st.writeCodec bs.flatten
      | .stream => st.writeTo 0 bs
      | _ => st.write bs.flatten
  | .other => st.refuse .illegalType 0

/-- `gettyWSConn.Send`. -/
def wsSend (st : State) : Arg → Result × State
  | .bytes p => st.writeMessage p
  | _ => st.refuse .illegalType 0

/-- `conn.Send`. -/
def connSend (cfg : Cfg) (st : State) (pkg : Arg) : Result × State :=
  if cfg.kind = .ws then wsSend st pkg
  else
    match armDeadline cfg st with
    | (some e, st) => (⟨0, some e⟩, st)
    | (none, st) => tcpSend cfg st pkg

/-! ## The calls -/

/-- `checkWebsocketPayload`. -/
def checkWebsocketPayload (cfg : Cfg) (n : Nat) : Option WriteErr :=
  if cfg.maxWriteMsgLen ≤ 0 ∨ (n : Int) ≤ cfg.maxWriteMsgLen then none
  else some (.tooLarge n cfg.maxWriteMsgLen)

/-- What the calls use of `s.Connection`, whose state is `σ`, and of the session: the type of the
connection, the limit for the payload of a websocket message, `Send`, `Send` between the two
`SetWriteTimeout`s of a `WritePkg`, `IncWritePkgNum`, and the error of a call that gives up before
`Send`. -/
structure Connection (σ : Type) where
  type : ConnType
  checkWebsocketPayload : Nat → Option WriteErr
  send : σ → Arg → Result × σ
  sendWithin : Int → σ → Arg → Result × σ
  incWritePkgNum : σ → σ
  refuse : σ → WriteErr → Nat → Result × σ

/-- The connection of `cfg`, without statistics. -/
def Cfg.conn (cfg : Cfg) : Connection State where
  type := cfg.kind.type
  checkWebsocketPayload := WriteCount.checkWebsocketPayload cfg
  send := connSend cfg
  sendWithin timeout := connSend { cfg with wTimeout := timeout }
  incWritePkgNum st := st
  refuse := State.refuse

/-- What the `Writer` returns. -/
structure Encoded where
  pkgBytes : Bytes
  err : Option String
  deriving Repr, DecidableEq

section Calls

variable {σ : Type} (conn : Connection σ)

/-- The loop of `WriteBytes` and the send after it. -/
def writeFragments (pkg : Bytes) (writeSize leftPackageSize : Nat) (st : σ) : Result × σ :=
  if maxPacketLen < leftPackageSize then
    match conn.send st (.bytes ((pkg.drop writeSize).take maxPacketLen)) with
    | (⟨n, some e⟩, st) => (⟨writeSize + n, some e⟩, st)
    | (⟨_, none⟩, st) =>
        writeFragments pkg (writeSize + maxPacketLen) (leftPackageSize - maxPacketLen) st
  else if leftPackageSize = 0 then (⟨writeSize, none⟩, st)
  else
    match conn.send st (.bytes (pkg.drop writeSize)) with
    | (⟨n, some e⟩, st) => (⟨writeSize + n, some e⟩, st)
    | (⟨_, none⟩, st) => (⟨pkg.length, none⟩, st)
termination_by leftPackageSize
decreasing_by
  have : 0 < maxPacketLen := by decide
  omega

/-- `WriteBytes`. -/
def writeBytes (pkg : Bytes) (st : σ) : Result × σ :=
  if conn.type = .ws then
    match conn.checkWebsocketPayload pkg.length with
    | some e => conn.refuse st e 0
    | none =>
        match conn.send st (.bytes pkg) with
        | (⟨n, some e⟩, st) => (⟨n, some e⟩, st)
        | (⟨_, none⟩, st) => (⟨pkg.length, none⟩, st)
  else writeFragments conn pkg 0 pkg.length st

/-- The loop of `WriteBytesArray` on a websocket. -/
def writeMessages (total : Nat) (st : σ) : List Bytes → Result × σ
  | [] => (⟨total, none⟩, st)
  | p :: ps =>
      match conn.checkWebsocketPayload p.length with
      | some e => conn.refuse st e total
      | none =>
          match conn.send st (.bytes p) with
          | (⟨n, some e⟩, st) => (⟨total + n, some e⟩, st)
          | (⟨n, none⟩, st) => writeMessages (total + n) st ps

/-- The end of `WriteBytesArray` on any other connection: the packages are merged, and the
statistics corrected by a loop over `IncWritePkgNum`. -/
def writeMerged (pkgs : List Bytes) (st : σ) : Result × σ :=
  match writeBytes conn pkgs.flatten st with
  | (⟨wlg, some e⟩, st) => (⟨wlg, some e⟩, st)
  | (⟨wlg, none⟩, st) => (⟨wlg, none⟩, Nat.repeat conn.incWritePkgNum (pkgs.length - 1) st)

/-- The type switch of `WriteBytesArray`. -/
def writeBatch (pkgs : List Bytes) (st : σ) : Result × σ :=
  match conn.type with
  | .tcp => conn.send st (.buffers pkgs)
  | .ws => writeMessages conn 0 st pkgs
  | .other => writeMerged conn pkgs st

/-- `WriteBytesArray`. -/
def writeBytesArray (pkgs : List Bytes) (st : σ) : Result × σ :=
  match pkgs with
  | [pkg] => writeBytes conn pkg st
  | pkgs => writeBatch conn pkgs st

/-- `Send`. -/
def send (pkg : Arg) (st : σ) : Result × σ :=
  match pkg with
  | .bytes p =>
      if conn.type = .ws then
        match conn.checkWebsocketPayload p.length with
        | some e => conn.refuse st e 0
        | none => conn.send st pkg
      else conn.send st pkg
  | pkg => conn.send st pkg

/-- `WritePkg`, with both its counts; `udpCtx` says whether the package is a
`UDPContext`, which only a UDP connection can send. -/
def writePkg (enc : Encoded) (udpCtx : Bool) (timeout : Int) (st : σ) : Nat × Result × σ :=
  match enc.err with
  | some msg => (enc.pkgBytes.length, conn.refuse st (.encode msg) 0)
  | none =>
      let pkg := if udpCtx then Arg.other else .bytes enc.pkgBytes
      let limited :=
        if conn.type = .ws then conn.checkWebsocketPayload enc.pkgBytes.length else none
      match limited with
      | some e => (enc.pkgBytes.length, conn.refuse st e 0)
      | none =>
          (enc.pkgBytes.length,
            if 0 < timeout then conn.sendWithin timeout st pkg else conn.send st pkg)

end Calls

/-- A call of the session's write interface. -/
inductive Call where
  | writeBytes (pkg : Bytes)
  | writeBytesArray (pkgs : List Bytes)
  | writePkg (enc : Encoded) (udpCtx : Bool) (timeout : Int)
  | send (pkg : Arg)
  deriving Repr, DecidableEq

def Call.method : Call → WriteMethod
  | .writeBytes pkg => .writeBytes pkg.length
  | .writeBytesArray pkgs => .writeBytesArray (pkgs.map List.length)
  | .writePkg _ _ timeout => .writePkg timeout
  | .send _ => .send

def Arg.packages : Arg → List Bytes
  | .bytes b => [b]
  | .buffers bs => bs
  | .other => []

/-- The packages a call has to deliver. -/
def Call.packages : Call → List Bytes
  | .writeBytes pkg => [pkg]
  | .writeBytesArray pkgs => pkgs
  | .writePkg enc _ _ => [enc.pkgBytes]
  | .send pkg => pkg.packages

def Call.payload (call : Call) : Bytes := call.packages.flatten

/-- There is something to deliver, and no package of length zero. -/
def Solid (packages : List Bytes) : Prop := packages ≠ [] ∧ ∀ p ∈ packages, p ≠ []

def Call.run {σ : Type} (conn : Connection σ) (st : σ) : Call → Result × σ
  | .writeBytes pkg => WriteCount.writeBytes conn pkg st
  | .writeBytesArray pkgs => WriteCount.writeBytesArray conn pkgs st
  | .writePkg enc udpCtx timeout => (WriteCount.writePkg conn enc udpCtx timeout st).2
  | .send pkg => WriteCount.send conn pkg st

/-! ## Specification -/

/-- What a function that was offered `b` has done to the connection.  `base` is what it
had counted before.  On a `raw` connection the count is exact also after an error, and
with `solid` input every failure leaves something out. -/
structure Wrote (raw : Prop) (st : State) (b : Bytes) (solid : Prop) (base : Nat)
    (out : Result × State) : Prop where
  sent : ∃ x, x <+: b ∧ out.2.accepted = st.accepted ++ x ∧ (out.1.err = none → x = b) ∧
    (raw ∨ out.1.err = none → out.1.count = base + x.length) ∧
    (raw → out.1.err ≠ none → solid → x.length < b.length)
  kept : out.1.err = none → out.2.refused = st.refused
  flagged : out.1.err ≠ none → out.2.refused = true

variable {raw : Prop} {st st₁ : State} {b b₁ b₂ : Bytes} {solid solid₁ solid₂ : Prop}
  {base n : Nat} {e : WriteErr} {out : Result × State}

/-- Everything that was offered is accepted. -/
theorem wrote_all (raw : Prop) (st : State) (b : Bytes) (solid : Prop) (os : List Outcome) :
    Wrote raw st b solid 0 (⟨b.length, none⟩, ⟨os, st.accepted ++ b, st.refused⟩) :=
  ⟨⟨b, List.prefix_rfl, rfl, fun _ => rfl, fun _ => (Nat.zero_add _).symm,
    fun _ h => absurd rfl h⟩, fun _ => rfl, fun h => absurd rfl h⟩

/-- Nothing is accepted, and an error reported. -/
theorem wrote_none (os : List Outcome) (hsolid : solid → b ≠ []) :
    Wrote raw st b solid base (⟨base, some e⟩, ⟨os, st.accepted, true⟩) := by
  refine ⟨⟨[], List.nil_prefix, (List.append_nil _).symm, (fun h => by cases h), fun _ => rfl,
    fun _ _ hs => ?_⟩, (fun h => by cases h), fun _ => rfl⟩
  exact List.length_pos_iff.mpr (hsolid hs)

/-- Nothing is left to write. -/
theorem wrote_nil (raw : Prop) (st : State) (solid : Prop) (base : Nat) :
    Wrote raw st [] solid base (⟨base, none⟩, st) :=
  ⟨⟨[], List.prefix_rfl, (List.append_nil _).symm, fun _ => rfl, fun _ => rfl,
    fun _ h => absurd rfl h⟩, fun _ => rfl, fun h => absurd rfl h⟩

/-- A function that has succeeded goes on with another one. -/
theorem Wrote.seq (h₁ : Wrote raw st b₁ solid₁ base (⟨n, none⟩, st₁))
    (h₂ : Wrote raw st₁ b₂ solid₂ n out) (hsolid : solid → solid₂) :
    Wrote raw st (b₁ ++ b₂) solid base out := by
  obtain ⟨x₁, -, hacc₁, hall₁, hcount₁, -⟩ := h₁.sent
  obtain ⟨x₂, hpre, hacc₂, hall₂, hcount₂, hshort⟩ := h₂.sent
  obtain rfl : x₁ = b₁ := hall₁ rfl
  have hn : n = base + x₁.length := hcount₁ (Or.inr rfl)
  refine ⟨⟨x₁ ++ x₂, (List.prefix_append_right_inj x₁).mpr hpre, ?_, ?_, ?_, ?_⟩, ?_, h₂.flagged⟩
  · rw [hacc₂, hacc₁, List.append_assoc]
  · intro herr
    rw [hall₂ herr]
  · intro hraw
    rw [hcount₂ hraw, List.length_append]
    omega
  · intro hraw herr hs
    have := hshort hraw herr (hsolid hs)
    simp only [List.length_append]
    omega
  · intro herr
    rw [h₂.kept herr]
    exact h₁.kept rfl

/-- A function that has failed is the last one. -/
theorem Wrote.stop (h : Wrote raw st b₁ solid₁ base (⟨n, some e⟩, st₁)) (hsolid : solid → solid₁) :
    Wrote raw st (b₁ ++ b₂) solid base (⟨n, some e⟩, st₁) := by
  obtain ⟨x, hpre, hacc, -, hcount, hshort⟩ := h.sent
  refine ⟨⟨x, hpre.trans (List.prefix_append b₁ b₂), hacc, (fun h => by cases h), hcount, ?_⟩,
    (fun h => by cases h), h.flagged⟩
  intro hraw herr hs
  have := hshort hraw herr (hsolid hs)
  simp only [List.length_append]
  omega

/-- The count of a function on its own becomes part of a running total. -/
theorem Wrote.shift {err : Option WriteErr} (h : Wrote raw st b solid 0 (⟨n, err⟩, st₁))
    (base : Nat) : Wrote raw st b solid base (⟨base + n, err⟩, st₁) := by
  obtain ⟨x, hpre, hacc, hall, hcount, hshort⟩ := h.sent
  refine ⟨⟨x, hpre, hacc, hall, fun hraw => ?_, hshort⟩, h.kept, h.flagged⟩
  have hn : n = 0 + x.length := hcount hraw
  show base + n = base + x.length
  omega

theorem Wrote.mono (h : Wrote raw st b solid₁ base out) (hsolid : solid → solid₁) :
    Wrote raw st b solid base out := by
  obtain ⟨x, hpre, hacc, hall, hcount, hshort⟩ := h.sent
  exact ⟨⟨x, hpre, hacc, hall, hcount, fun hraw herr hs => hshort hraw herr (hsolid hs)⟩,
    h.kept, h.flagged⟩

/-- A success counts everything. -/
theorem Wrote.count_ok (h : Wrote raw st b solid base (⟨n, none⟩, st₁)) :
    n = base + b.length := by
  obtain ⟨x, -, -, hall, hcount, -⟩ := h.sent
  rw [← hall rfl]
  exact hcount (Or.inr rfl)

/-! ## The connection -/

theorem write_wrote (raw : Prop) (st : State) (b : Bytes) :
    Wrote raw st b (b ≠ []) 0 (st.write b) := by
  unfold State.write
  split
  · next k os _ =>
      refine ⟨⟨_, List.take_prefix _ b, rfl, (fun h => by cases h),
        fun _ => (Nat.zero_add _).symm, fun _ _ hne => ?_⟩, (fun h => by cases h), fun _ => rfl⟩
      have := List.length_pos_iff.mpr hne
      rw [List.length_take]
      omega
  · exact wrote_all raw st b (b ≠ []) _
  · exact wrote_all raw st b (b ≠ []) []

/-- A codec is not raw: its count after an error is no claim. -/
private theorem writeCodec_wrote (hraw : ¬ raw) (st : State) (b : Bytes) :
    Wrote raw st b solid 0 (st.writeCodec b) := by
  unfold State.writeCodec
  split
  · next k os _ =>
      refine ⟨⟨_, List.take_prefix k b, rfl, (fun h => by cases h), ?_, fun h => absurd h hraw⟩,
        (fun h => by cases h), fun _ => rfl⟩
      rintro (h | h)
      · exact absurd h hraw
      · cases h
  · exact wrote_all raw st b solid _
  · exact wrote_all raw st b solid []

private theorem writeMessage_wrote (raw : Prop) (st : State) (p : Bytes) :
    Wrote raw st p (p ≠ []) 0 (st.writeMessage p) := by
  unfold State.writeMessage
  split
  · exact wrote_none _ id
  · exact wrote_all raw st p (p ≠ []) _
  · exact wrote_all raw st p (p ≠ []) []

theorem refuse_wrote (st : State) (b : Bytes) (base : Nat) (e : WriteErr)
    (hsolid : solid → b ≠ []) : Wrote raw st b solid base (st.refuse e base) :=
  wrote_none st.outcomes hsolid

/-- The slices are written one by one; an error ends the loop. -/
private theorem writeTo_wrote (raw : Prop) (st : State) (n : Nat) (bs : List Bytes) :
    Wrote raw st bs.flatten (∀ b ∈ bs, b ≠ []) n (st.writeTo n bs) := by
  induction bs generalizing st n with
  | nil => exact wrote_nil raw st _ n
  | cons b bs ih =>
      have hb := write_wrote raw st b
      simp only [State.writeTo, List.flatten_cons]
      split
      · next k e st₁ heq =>
          rw [heq] at hb
          exact (hb.shift n).stop (fun hs => hs b (List.mem_cons_self ..))
      · next k st₁ heq =>
          rw [heq] at hb
          exact (hb.shift n).seq (ih st₁ (n + k)) (fun hs p hp => hs p (List.mem_cons_of_mem b hp))

/-- The deadline either is set, or nothing is written. -/
theorem armDeadline_cases (cfg : Cfg) (st : State) :
    (∃ os, armDeadline cfg st = (none, { st with outcomes := os })) ∨
      ∃ os, armDeadline cfg st = (some .deadline, ⟨os, st.accepted, true⟩) := by
  unfold armDeadline State.setWriteDeadline
  split
  · split
    · next os _ => exact Or.inr ⟨os, rfl⟩
    · next os _ => exact Or.inl ⟨os, rfl⟩
    · exact Or.inl ⟨st.outcomes, rfl⟩
  · exact Or.inl ⟨st.outcomes, rfl⟩

theorem flatten_ne_nil {bs : List Bytes} (h : Solid bs) : bs.flatten ≠ [] := by
  obtain ⟨b, hb⟩ := List.exists_mem_of_ne_nil bs h.1
  intro hnil
  exact h.2 b hb (List.flatten_eq_nil_iff.mp hnil b hb)

/-- The connection has no codec. -/
def Cfg.Raw (cfg : Cfg) : Prop := cfg.kind ≠ .codec

private theorem tcpSend_wrote (cfg : Cfg) (st : State) (pkg : Arg) :
    Wrote cfg.Raw st pkg.packages.flatten (Solid pkg.packages) 0 (tcpSend cfg st pkg) := by
  cases pkg with
  | bytes p =>
      have hp : ([p] : List Bytes).flatten = p := List.flatten_singleton
      simp only [tcpSend, Arg.packages]
      rw [hp]
      split
      · next hcodec => exact writeCodec_wrote (fun hraw => hraw hcodec) st p
      · exact (write_wrote _ st p).mono (fun hs => hs.2 p (List.mem_singleton_self p))
  | buffers bs =>
      simp only [tcpSend, Arg.packages]
      split
      · next hcodec => exact writeCodec_wrote (fun hraw => hraw hcodec) st bs.flatten
      · exact (writeTo_wrote _ st 0 bs).mono And.right
      · exact (write_wrote _ st bs.flatten).mono flatten_ne_nil
  | other => exact refuse_wrote st _ 0 _ flatten_ne_nil

private theorem wsSend_wrote (raw : Prop) (st : State) (pkg : Arg) :
    Wrote raw st pkg.packages.flatten (Solid pkg.packages) 0 (wsSend st pkg) := by
  cases pkg with
  | bytes p =>
      have hp : ([p] : List Bytes).flatten = p := List.flatten_singleton
      simp only [wsSend, Arg.packages]
      rw [hp]
      exact (writeMessage_wrote raw st p).mono (fun hs => hs.2 p (List.mem_singleton_self p))
  | buffers bs => exact refuse_wrote st _ 0 _ flatten_ne_nil
  | other => exact refuse_wrote st _ 0 _ flatten_ne_nil

/-- **`conn.Send` reports what the connection accepted.** -/
theorem connSend_wrote (cfg : Cfg) (st : State) (pkg : Arg) :
    Wrote cfg.Raw st pkg.packages.flatten (Solid pkg.packages) 0 (connSend cfg st pkg) := by
  unfold connSend
  split
  · exact wsSend_wrote _ st pkg
  · rcases armDeadline_cases cfg st with ⟨os, harm⟩ | ⟨os, harm⟩
    · rw [harm]
      -- only the outcomes have changed
      have h := tcpSend_wrote cfg { st with outcomes := os } pkg
      exact ⟨h.sent, h.kept, h.flagged⟩
    · rw [harm]
      exact wrote_none os flatten_ne_nil

theorem connSend_bytes (cfg : Cfg) (st : State) (b : Bytes) :
    Wrote cfg.Raw st b (b ≠ []) 0 (cfg.conn.send st (.bytes b)) := by
  have h := connSend_wrote cfg st (.bytes b)
  rw [show (Arg.bytes b).packages.flatten = b from List.flatten_singleton] at h
  exact h.mono (fun hne => ⟨List.cons_ne_nil b [], fun p hp => by
    rw [List.mem_singleton.mp hp]; exact hne⟩)

/-- A package of the wrong type is refused, at the latest after the deadline is set. -/
theorem connSend_other (cfg : Cfg) (st : State) :
    ∃ os e, connSend cfg st .other = (⟨0, some e⟩, ⟨os, st.accepted, true⟩) := by
  unfold connSend
  split
  · exact ⟨st.outcomes, .illegalType, rfl⟩
  · rcases armDeadline_cases cfg st with ⟨os, harm⟩ | ⟨os, harm⟩
    · rw [harm]
      exact ⟨os, .illegalType, rfl⟩
    · rw [harm]
      exact ⟨os, .deadline, rfl⟩

/-! ## The calls -/

theorem type_eq_ws {kind : Kind} : kind.type = .ws ↔ kind = .ws := by
  cases kind <;> decide

theorem conn_send (cfg : Cfg) : cfg.conn.send = connSend cfg := rfl

theorem conn_check (cfg : Cfg) : cfg.conn.checkWebsocketPayload = checkWebsocketPayload cfg := rfl

theorem conn_type_ws {cfg : Cfg} (hws : cfg.kind = .ws) : cfg.conn.type = .ws :=
  type_eq_ws.mpr hws

theorem type_ne_other (kind : Kind) : kind.type ≠ .other := by
  cases kind <;> decide

theorem drop_ne_nil {pkg : Bytes} {writeSize left : Nat} (hsize : writeSize + left = pkg.length)
    (hleft : left ≠ 0) : pkg.drop writeSize ≠ [] := by
  rw [← List.length_pos_iff, List.length_drop]
  omega

/-- **Loop lemma.**  The fragments from `writeSize` on are a prefix of the package, and
an error leaves part of it out. -/
theorem writeFragments_wrote (cfg : Cfg) (pkg : Bytes) (writeSize left : Nat) (st : State)
    (hsize : writeSize + left = pkg.length) :
    Wrote cfg.Raw st (pkg.drop writeSize) True writeSize
      (writeFragments cfg.conn pkg writeSize left st) := by
  fun_induction writeFragments cfg.conn pkg writeSize left st with
  | case1 writeSize left st hmore n e st₁ heq =>
      have hfrag := connSend_bytes cfg st ((pkg.drop writeSize).take maxPacketLen)
      rw [heq] at hfrag
      have hne : (pkg.drop writeSize).take maxPacketLen ≠ [] := by
        rw [← List.length_pos_iff, List.length_take, List.length_drop]
        have : 0 < maxPacketLen := by decide
        omega
      rw [← List.take_append_drop maxPacketLen (pkg.drop writeSize)]
      exact (hfrag.shift writeSize).stop (fun _ => hne)
  | case2 writeSize left st hmore n st₁ heq ih =>
      have hfrag := connSend_bytes cfg st ((pkg.drop writeSize).take maxPacketLen)
      rw [heq] at hfrag
      have hlen : ((pkg.drop writeSize).take maxPacketLen).length = maxPacketLen := by
        rw [List.length_take, List.length_drop]
        omega
      have hn : n = maxPacketLen := by
        have := hfrag.count_ok
        omega
      subst hn
      have hrest := ih (by omega)
      rw [← List.drop_drop] at hrest
      rw [← List.take_append_drop maxPacketLen (pkg.drop writeSize)]
      exact (hfrag.shift writeSize).seq hrest id
  | case3 writeSize st hmore =>
      rw [List.drop_of_length_le (by omega)]
      exact wrote_nil _ st True writeSize
  | case4 writeSize left st hmore hleft n e st₁ heq =>
      have hlast := connSend_bytes cfg st (pkg.drop writeSize)
      rw [heq] at hlast
      exact (hlast.shift writeSize).mono (fun _ => drop_ne_nil hsize hleft)
  | case5 writeSize left st hmore hleft n st₁ heq =>
      have hlast := connSend_bytes cfg st (pkg.drop writeSize)
      rw [heq] at hlast
      have hn : writeSize + n = pkg.length := by
        have := hlast.count_ok
        rw [List.length_drop] at this
        omega
      rw [← hn]
      exact (hlast.shift writeSize).mono (fun _ => drop_ne_nil hsize hleft)

theorem writeBytes_wrote (cfg : Cfg) (pkg : Bytes) (st : State) :
    Wrote cfg.Raw st pkg (pkg ≠ []) 0 (writeBytes cfg.conn pkg st) := by
  unfold writeBytes
  split
  · split
    · exact refuse_wrote st pkg 0 _ id
    · have hsend := connSend_bytes cfg st pkg
      split
      · next n e st₁ heq =>
          rw [heq] at hsend
          exact hsend
      · next n st₁ heq =>
          rw [heq] at hsend
          have hn : n = pkg.length := by
            have := hsend.count_ok
            omega
          rw [← hn]
          exact hsend
  · exact (writeFragments_wrote cfg pkg 0 pkg.length st (Nat.zero_add _)).mono (fun _ => trivial)

/-- **Loop lemma.**  The messages of a batch that were sent come first. -/
theorem writeMessages_wrote (cfg : Cfg) (total : Nat) (st : State) (ps : List Bytes) :
    Wrote cfg.Raw st ps.flatten (∀ p ∈ ps, p ≠ []) total (writeMessages cfg.conn total st ps) := by
  induction ps generalizing total st with
  | nil => exact wrote_nil _ st _ total
  | cons p ps ih =>
      simp only [writeMessages, List.flatten_cons]
      split
      · refine refuse_wrote st _ total _ (fun hs hnil => ?_)
        exact hs p (List.mem_cons_self ..) (List.append_eq_nil_iff.mp hnil).1
      · have hsend := connSend_bytes cfg st p
        split
        · next n e st₁ heq =>
            rw [heq] at hsend
            exact (hsend.shift total).stop (fun hs => hs p (List.mem_cons_self ..))
        · next n st₁ heq =>
            rw [heq] at hsend
            exact (hsend.shift total).seq (ih (total + n) st₁)
              (fun hs q hq => hs q (List.mem_cons_of_mem p hq))

private theorem writeBytesArray_wrote (cfg : Cfg) (pkgs : List Bytes) (st : State) :
    Wrote cfg.Raw st pkgs.flatten (Solid pkgs) 0 (writeBytesArray cfg.conn pkgs st) := by
  unfold writeBytesArray
  split
  · next pkg =>
      rw [List.flatten_singleton]
      exact (writeBytes_wrote cfg pkg st).mono (fun hs => hs.2 pkg (List.mem_singleton_self pkg))
  · unfold writeBatch
    split
    · exact connSend_wrote cfg st (.buffers pkgs)
    · exact (writeMessages_wrote cfg 0 st pkgs).mono And.right
    · next hother => exact absurd hother (type_ne_other cfg.kind)

private theorem send_wrote (cfg : Cfg) (pkg : Arg) (st : State) :
    Wrote cfg.Raw st pkg.packages.flatten (Solid pkg.packages) 0 (send cfg.conn pkg st) := by
  unfold send
  split
  · next p =>
      split
      · split
        · exact refuse_wrote st _ 0 _ flatten_ne_nil
        · exact connSend_wrote cfg st (.bytes p)
      · exact connSend_wrote cfg st (.bytes p)
  · exact connSend_wrote cfg st pkg

theorem writePkg_wrote (cfg : Cfg) (enc : Encoded) (udpCtx : Bool) (timeout : Int) (st : State) :
    Wrote cfg.Raw st enc.pkgBytes (enc.pkgBytes ≠ []) 0
      (writePkg cfg.conn enc udpCtx timeout st).2 := by
  have hsend : ∀ cfg' : Cfg, cfg'.Raw = cfg.Raw → Wrote cfg.Raw st enc.pkgBytes (enc.pkgBytes ≠ [])
      0 (connSend cfg' st (if udpCtx then .other else .bytes enc.pkgBytes)) := by
    intro cfg' hraw
    rw [← hraw]
    cases udpCtx with
    | false => exact connSend_bytes cfg' st enc.pkgBytes
    | true =>
        obtain ⟨os, e, hother⟩ := connSend_other cfg' st
        exact hother ▸ wrote_none os id
  unfold writePkg
  split
  · exact refuse_wrote st _ 0 _ id
  · dsimp only
    split
    · exact refuse_wrote st _ 0 _ id
    · split
      · exact hsend { cfg with wTimeout := timeout } rfl
      · exact hsend cfg rfl

/-- The specification of every call. -/
theorem run_wrote (cfg : Cfg) (call : Call) (st : State) :
    Wrote cfg.Raw st call.payload (Solid call.packages) 0 (call.run cfg.conn st) := by
  cases call with
  | writeBytes pkg =>
      rw [Call.payload, Call.packages, List.flatten_singleton]
      exact (writeBytes_wrote cfg pkg st).mono (fun hs => hs.2 pkg (List.mem_singleton_self pkg))
  | writeBytesArray pkgs => exact writeBytesArray_wrote cfg pkgs st
  | writePkg enc udpCtx timeout =>
      rw [Call.payload, Call.packages, List.flatten_singleton]
      exact (writePkg_wrote cfg enc udpCtx timeout st).mono
        (fun hs => hs.2 enc.pkgBytes (List.mem_singleton_self _))
  | send pkg => exact send_wrote cfg pkg st

/-! ## Whole messages -/

/-- What a websocket call has delivered: its first packages, whole, and none above the
limit. -/
def Delivered (cfg : Cfg) (st : State) (packages : List Bytes) (st' : State) : Prop :=
  ∃ ps, ps <+: packages ∧ st'.accepted = st.accepted ++ ps.flatten ∧
    ∀ p ∈ ps, checkWebsocketPayload cfg p.length = none

theorem delivered_none {cfg : Cfg} {st st' : State} {packages : List Bytes}
    (h : st'.accepted = st.accepted) : Delivered cfg st packages st' :=
  ⟨[], List.nil_prefix, by simp [h], fun p hp => by cases hp⟩

/-- On a websocket `Send` looks at the type of the connection only. -/
theorem connSend_eq_of_ws {cfg cfg' : Cfg} (hws : cfg'.kind = .ws) (hws' : cfg.kind = .ws)
    (st : State) (pkg : Arg) : connSend cfg' st pkg = connSend cfg st pkg := by
  rw [connSend, connSend, if_pos hws, if_pos hws']

/-- One message is delivered whole or not at all. -/
theorem delivered_message {cfg : Cfg} (hws : cfg.kind = .ws) (st : State) (p : Bytes)
    (hlimit : checkWebsocketPayload cfg p.length = none) :
    Delivered cfg st [p] (cfg.conn.send st (.bytes p)).2 := by
  simp only [Cfg.conn, connSend, if_pos hws, wsSend, State.writeMessage]
  have hone : ∀ os, Delivered cfg st [p] ⟨os, st.accepted ++ p, st.refused⟩ := fun os =>
    ⟨[p], List.prefix_rfl, by simp, fun q hq => by rw [List.mem_singleton.mp hq]; exact hlimit⟩
  split
  · exact delivered_none rfl
  · exact hone _
  · exact hone _

private theorem delivered_other {cfg : Cfg} (st : State) (packages : List Bytes) :
    Delivered cfg st packages (connSend cfg st .other).2 := by
  obtain ⟨os, e, hother⟩ := connSend_other cfg st
  rw [hother]
  exact delivered_none rfl

private theorem delivered_messages {cfg : Cfg} (hws : cfg.kind = .ws) (total : Nat) (st : State)
    (ps : List Bytes) : Delivered cfg st ps (writeMessages cfg.conn total st ps).2 := by
  induction ps generalizing total st with
  | nil => exact delivered_none rfl
  | cons p ps ih =>
      simp only [writeMessages]
      split
      · exact delivered_none rfl
      · next hlimit =>
          have hsend := connSend_bytes cfg st p
          obtain ⟨qs, hpre, hacc, hqs⟩ := delivered_message hws st p hlimit
          split
          · next n e st₁ heq =>
              rw [heq] at hacc
              exact ⟨qs, hpre.trans ⟨ps, rfl⟩, hacc, hqs⟩
          · next n st₁ heq =>
              rw [heq] at hsend
              obtain ⟨x, -, hx, hall, -⟩ := hsend.sent
              obtain ⟨rs, hrpre, hracc, hrs⟩ := ih (total + n) st₁
              refine ⟨p :: rs, List.cons_prefix_cons.mpr ⟨rfl, hrpre⟩, ?_, ?_⟩
              · rw [hracc, hx, hall rfl, List.flatten_cons, List.append_assoc]
              · intro q hq
                rcases List.mem_cons.mp hq with rfl | hq
                · exact hlimit
                · exact hrs q hq

private theorem delivered_writeBytes {cfg : Cfg} (hws : cfg.kind = .ws) (pkg : Bytes) (st : State) :
    Delivered cfg st [pkg] (writeBytes cfg.conn pkg st).2 := by
  rw [writeBytes, if_pos (conn_type_ws hws)]
  split
  · exact delivered_none rfl
  · next hlimit =>
      have hsend := delivered_message hws st pkg hlimit
      split
      · next heq =>
          rw [heq] at hsend
          exact hsend
      · next heq =>
          rw [heq] at hsend
          exact hsend

/-- A websocket delivers whole packages within the limit, in order. -/
theorem run_delivered {cfg : Cfg} (hws : cfg.kind = .ws) (call : Call) (st : State) :
    Delivered cfg st call.packages (call.run cfg.conn st).2 := by
  cases call with
  | writeBytes pkg => exact delivered_writeBytes hws pkg st
  | writeBytesArray pkgs =>
      simp only [Call.run, Call.packages]
      unfold writeBytesArray
      split
      · exact delivered_writeBytes hws _ st
      · rw [writeBatch, conn_type_ws hws]
        exact delivered_messages hws 0 st pkgs
  | writePkg enc udpCtx timeout =>
      have hsend : ∀ cfg' : Cfg, cfg'.kind = .ws →
          checkWebsocketPayload cfg enc.pkgBytes.length = none → Delivered cfg st [enc.pkgBytes]
            (connSend cfg' st (if udpCtx then .other else .bytes enc.pkgBytes)).2 := by
        intro cfg' hws' hok
        cases udpCtx with
        | false =>
            rw [if_neg Bool.false_ne_true, connSend_eq_of_ws hws' hws st]
            exact delivered_message hws st enc.pkgBytes hok
        | true =>
            obtain ⟨os, e, hother⟩ := connSend_other cfg' st
            exact hother ▸ delivered_none rfl
      simp only [Call.run, Call.packages, writePkg]
      split
      · exact delivered_none rfl
      · rw [if_pos (conn_type_ws hws)]
        split
        · exact delivered_none rfl
        · next hok =>
            split
            · exact hsend { cfg with wTimeout := timeout } hws hok
            · exact hsend cfg hws hok
  | send pkg =>
      cases pkg with
      | bytes p =>
          simp only [Call.run, send, if_pos (conn_type_ws hws)]
          split
          · exact delivered_none rfl
          · next hlimit => exact delivered_message hws st p hlimit
      | buffers bs =>
          simp only [Call.run, send, Cfg.conn, connSend, if_pos hws]
          exact delivered_none rfl
      | other => exact delivered_other st _

/-- **The reported count is exactly what was delivered.**  On a raw TCP connection or a
websocket and for all outcomes of the socket, the count of a call is the number of bytes
the connection accepted, these are a prefix of the payload, and the error is nil exactly
when the count is the whole length and nothing was refused; for packages that are not
empty the count alone decides.  On a websocket what was accepted are whole packages, none
of them above the write limit. -/
theorem write_count_exact (cfg : Cfg) (hraw : cfg.kind ≠ .codec) (call : Call)
    (outcomes : List Outcome) :
    let out := call.run cfg.conn ⟨outcomes, [], false⟩
    out.1.count = out.2.accepted.length ∧ out.2.accepted <+: call.payload ∧
      (out.1.err = none ↔ out.1.count = call.payload.length ∧ out.2.refused = false) ∧
      (Solid call.packages → (out.1.err = none ↔ out.1.count = call.payload.length)) ∧
      (cfg.kind = .ws → ∃ ps, ps <+: call.packages ∧ out.2.accepted = ps.flatten ∧
        ∀ p ∈ ps, checkWebsocketPayload cfg p.length = none) := by
  intro out
  have hwrote := run_wrote cfg call ⟨outcomes, [], false⟩
  obtain ⟨x, hpre, hacc, hall, hcount, hshort⟩ := hwrote.sent
  have hacc : out.2.accepted = x := by simpa using hacc
  have hcount : out.1.count = x.length := by simpa using hcount (Or.inl hraw)
  have hwhole : out.1.err = none → out.1.count = call.payload.length := fun herr => by
    rw [hcount, hall herr]
  refine ⟨by rw [hcount, hacc], hacc ▸ hpre, ⟨?_, ?_⟩, ?_, ?_⟩
  · exact fun herr => ⟨hwhole herr, hwrote.kept herr⟩
  · rintro ⟨-, hrefused⟩
    by_contra herr
    rw [hwrote.flagged herr] at hrefused
    cases hrefused
  · refine fun hsolid => ⟨hwhole, fun hlen => ?_⟩
    by_contra herr
    have := hshort hraw herr hsolid
    omega
  · intro hws
    obtain ⟨ps, hps, hdel, hlimit⟩ := run_delivered hws call ⟨outcomes, [], false⟩
    exact ⟨ps, hps, by simpa using hdel, hlimit⟩

/-- A package of three bytes whose write fails after two. -/
theorem write_count_exact_failed :
    let out := Call.run (Cfg.conn ⟨.tcp, 0, 0⟩) ⟨[.failed 2], [], false⟩ (.writeBytes [1, 2, 3])
    out.1.count = 2 ∧ out.2.accepted = [1, 2] ∧ out.1.err ≠ none ∧
      out.1.count = out.2.accepted.length := by
  refine ⟨?_, ?_, ?_, (write_count_exact ⟨.tcp, 0, 0⟩ (by decide) (.writeBytes [1, 2, 3])
    [.failed 2]).1⟩
  · simp [Call.run, writeBytes, writeFragments, Cfg.conn, Kind.type, connSend, armDeadline, tcpSend,
      State.write, maxPacketLen]
  · simp [Call.run, writeBytes, writeFragments, Cfg.conn, Kind.type, connSend, armDeadline, tcpSend,
      State.write, maxPacketLen]
  · simp [Call.run, writeBytes, writeFragments, Cfg.conn, Kind.type, connSend, armDeadline, tcpSend,
      State.write, maxPacketLen]

end Getty.Transport.WriteCount
