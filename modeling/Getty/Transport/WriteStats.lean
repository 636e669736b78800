import Getty.Transport.WsWriteLimit
import Mathlib.Algebra.Ring.Nat

/-!
# Write statistics

The counters `writeBytes` and `writePkgNum` of a `gettyConn` grow in `Send`, once per call that
succeeds.  What the caller passed to the session is a different thing: `WriteBytes` cuts a large
package into several sends, a batch is one send, one send per package, or merged into one slice
with a correction of `writePkgNum` afterwards.

The calls are those of `WriteCount`, here over connections with counters.  A connection `Accounts`
if each `Send` counts what it was given when it succeeds, and no more than that otherwise.  From
that alone follows what a call adds to the statistics (`run_counted`): the length of its packages,
and their number, except that `WriteBytes` outside websockets counts the fragments of a package.

## Main results

* `session_accounts` — the connections of TCP and websocket sessions do so.
* `run_counted` — what one call adds, also when it fails.
* `runAll_counted` — what a sequence of calls adds; never more bytes than were accepted.
* `write_stats_exact` — the statistics after any sequence of successful calls.
-/

namespace Getty.Transport.WriteStats

open WriteCount

/-! ## The connections -/

/-- A connection: the fields of its `gettyConn` that a write uses, and the socket. -/
structure Conn where
  wTimeout : Int
  writeBytes : UInt32
  writePkgNum : UInt32
  socket : State
  deriving Repr, DecidableEq

def Conn.on (c : Conn) (st : State) : Conn := { c with socket := st }

def Conn.setWriteTimeout (c : Conn) (wTimeout : Int) : Conn := { c with wTimeout := wTimeout }

/-- `writeBytes.Add(uint32(bytes))` and `writePkgNum.Add(uint32(pkgs))`. -/
def Conn.count (c : Conn) (bytes pkgs : Nat) : Conn :=
  { c with
    writeBytes := c.writeBytes + UInt32.ofNat bytes
    writePkgNum := c.writePkgNum + UInt32.ofNat pkgs }

/-- `IncWritePkgNum`. -/
def Conn.incWritePkgNum (c : Conn) : Conn := { c with writePkgNum := c.writePkgNum + 1 }

/-- Something is refused before it comes to `Send`. -/
def Conn.refuse (c : Conn) (e : WriteErr) (count : Nat) : Result × Conn :=
  ((c.socket.refuse e count).1, c.on (c.socket.refuse e count).2)

/-- `gettyTCPConn.Send`.  A batch adds what the socket has taken of it, a byte slice its length. -/
def tcpSend (kind : Kind) (c : Conn) (pkg : Arg) : Result × Conn :=
  match connSend ⟨kind, c.wTimeout, 0⟩ c.socket pkg, pkg with
  | (⟨lg, none⟩, st), .buffers buffers => (⟨lg, none⟩, (c.on st).count lg buffers.length)
  | (⟨length, none⟩, st), .bytes p => (⟨length, none⟩, (c.on st).count p.length 1)
  | (r, st), _ => (r, c.on st)

/-- `gettyWSConn.Send`. -/
def wsSend (c : Conn) (pkg : Arg) : Result × Conn :=
  match connSend ⟨.ws, c.wTimeout, 0⟩ c.socket pkg, pkg with
  | (⟨length, none⟩, st), .bytes p => (⟨length, none⟩, (c.on st).count p.length 1)
  | (r, st), _ => (r, c.on st)

def connectionSend : Kind → Conn → Arg → Result × Conn
  | .ws => wsSend
  | kind => tcpSend kind

/-- The connection of a TCP or websocket session.  The timeout of a `WritePkg` is set for the
send, and then restored. -/
def session (kind : Kind) (maxWriteMsgLen : Int) : Connection Conn where
  type := kind.type
  checkWebsocketPayload := checkWebsocketPayload ⟨kind, 0, maxWriteMsgLen⟩
  send := connectionSend kind
  sendWithin timeout c pkg :=
    let out := connectionSend kind (c.setWriteTimeout timeout) pkg
    (out.1, out.2.setWriteTimeout c.wTimeout)
  incWritePkgNum := Conn.incWritePkgNum
  refuse := Conn.refuse

/-! ## Sequences of calls -/

/-- A call, and whether it finds the session open, closed or without a connection. -/
structure Op where
  found : Found
  call : Call
  deriving Repr, DecidableEq

def Op.run (conn : Connection Conn) (c : Conn) (op : Op) : Result × Conn :=
  match stopped op.found op.call with
  | some r => (r, c)
  | none => op.call.run conn c

/-- The results of a sequence of calls, and the connection after them. -/
def runAll (conn : Connection Conn) : List Op → Conn → List Result × Conn
  | [], c => ([], c)
  | op :: ops, c =>
      let out := op.run conn c
      let rest := runAll conn ops out.2
      (out.1 :: rest.1, rest.2)

/-! ## Growth of the statistics -/

/-- From `c` to `c'` the counters have grown by `bytes` and `pkgs`, and the socket has accepted at
least the bytes that were counted. -/
structure Grown (c : Conn) (bytes pkgs : Nat) (c' : Conn) : Prop where
  writeBytes : c'.writeBytes = c.writeBytes + UInt32.ofNat bytes
  writePkgNum : c'.writePkgNum = c.writePkgNum + UInt32.ofNat pkgs
  accepted : c.socket.accepted.length + bytes ≤ c'.socket.accepted.length

variable {c c₁ c₂ : Conn} {b b₁ b₂ k k₁ k₂ n m : Nat} {e : WriteErr} {out : Result × Conn}

theorem Grown.refl (c : Conn) : Grown c 0 0 c :=
  ⟨(UInt32.add_zero _).symm, (UInt32.add_zero _).symm, Nat.le_refl _⟩

theorem Grown.trans (h₁ : Grown c b₁ k₁ c₁) (h₂ : Grown c₁ b₂ k₂ c₂) :
    Grown c (b₁ + b₂) (k₁ + k₂) c₂ := by
  constructor
  · rw [h₂.writeBytes, h₁.writeBytes, UInt32.ofNat_add, UInt32.add_assoc]
  · rw [h₂.writePkgNum, h₁.writePkgNum, UInt32.ofNat_add, UInt32.add_assoc]
  · have := h₁.accepted
    have := h₂.accepted
    omega

/-- The socket alone has gone on. -/
theorem grown_on {st : State} (h : c.socket.accepted.length ≤ st.accepted.length) :
    Grown c 0 0 (c.on st) :=
  ⟨(UInt32.add_zero _).symm, (UInt32.add_zero _).symm, h⟩

/-- The socket has taken `b` bytes, and they are counted. -/
theorem grown_count {st : State} (k : Nat)
    (h : st.accepted.length = c.socket.accepted.length + b) :
    Grown c b k ((c.on st).count b k) :=
  ⟨rfl, rfl, Nat.le_of_eq h.symm⟩

theorem grown_repeat {inc : Conn → Conn} (hinc : ∀ c, Grown c 0 1 (inc c)) (c : Conn) (k : Nat) :
    Grown c 0 k (Nat.repeat inc k c) := by
  induction k with
  | zero => exact Grown.refl c
  | succ k ih => exact ih.trans (hinc _)

/-- A function that has `bytes` bytes in `pkgs` packages to send counts all of it if it succeeds,
and no more than that if it fails. -/
def Counted (c : Conn) (bytes pkgs : Nat) (out : Result × Conn) : Prop :=
  ∃ b k, Grown c b k out.2 ∧ b ≤ bytes ∧ k ≤ pkgs ∧ (out.1.err = none → b = bytes ∧ k = pkgs)

/-- Nothing is counted, and an error reported. -/
theorem counted_none (b k : Nat) (h : Grown c 0 0 c₁) : Counted c b k (⟨n, some e⟩, c₁) :=
  ⟨0, 0, h, Nat.zero_le b, Nat.zero_le k, fun herr => by cases herr⟩

theorem counted_refuse (c : Conn) (b k : Nat) (e : WriteErr) (n : Nat) :
    Counted c b k (c.refuse e n) :=
  counted_none b k (grown_on (Nat.le_refl _))

/-- Everything is counted. -/
theorem counted_all (h : Grown c b k c₁) : Counted c b k (⟨n, none⟩, c₁) :=
  ⟨b, k, h, Nat.le_refl b, Nat.le_refl k, fun _ => ⟨rfl, rfl⟩⟩

/-- A function that has succeeded has counted everything. -/
theorem Counted.grown (h : Counted c b k out) (herr : out.1.err = none) : Grown c b k out.2 := by
  obtain ⟨b', k', hgrown, -, -, hall⟩ := h
  obtain ⟨rfl, rfl⟩ := hall herr
  exact hgrown

/-- A function that has succeeded goes on with another one. -/
theorem Counted.seq (h₁ : Counted c b₁ k₁ (⟨n, none⟩, c₁)) (h₂ : Counted c₁ b₂ k₂ out) :
    Counted c (b₁ + b₂) (k₁ + k₂) out := by
  obtain ⟨b, k, hgrown, hb, hk, hall⟩ := h₂
  refine ⟨b₁ + b, k₁ + k, (h₁.grown rfl).trans hgrown, by omega, by omega, fun herr => ?_⟩
  obtain ⟨rfl, rfl⟩ := hall herr
  exact ⟨rfl, rfl⟩

/-- A function that has failed is the last one. -/
theorem Counted.stop (h : Counted c b₁ k₁ (⟨n, some e⟩, c₁)) (hb : b₁ ≤ b) (hk : k₁ ≤ k) (m : Nat) :
    Counted c b k (⟨m, some e⟩, c₁) := by
  obtain ⟨b', k', hgrown, hb', hk', -⟩ := h
  exact ⟨b', k', hgrown, by omega, by omega, fun herr => by cases herr⟩

/-! ## The connections count their sends -/

/-- `Send` counts what it was given if it succeeds, and succeeds with nothing but byte slices and
batches; a timeout of its own makes no difference.  A call that gives up before counts nothing. -/
structure Accounts (conn : Connection Conn) : Prop where
  bytes : ∀ p c, Counted c p.length 1 (conn.send c (.bytes p))
  buffers : ∀ bs c, Counted c bs.flatten.length bs.length (conn.send c (.buffers bs))
  other : ∀ c b k, Counted c b k (conn.send c .other)
  within : ∀ timeout pkg b k, (∀ c, Counted c b k (conn.send c pkg)) →
    ∀ c, Counted c b k (conn.sendWithin timeout c pkg)
  inc : ∀ c, Grown c 0 1 (conn.incWritePkgNum c)
  refuse : ∀ c e n b k, Counted c b k (conn.refuse c e n)

section Socket

variable {raw solid : Prop} {st : State} {x : Bytes} {base : Nat} {res : Result × State}

private theorem accepted_le (h : Wrote raw st x solid base res) :
    st.accepted.length ≤ res.2.accepted.length := by
  obtain ⟨y, -, hacc, -⟩ := h.sent
  rw [hacc, List.length_append]
  omega

theorem accepted_eq (h : Wrote raw st x solid base res) (herr : res.1.err = none) :
    res.2.accepted.length = st.accepted.length + x.length := by
  obtain ⟨y, -, hacc, hall, -⟩ := h.sent
  rw [hacc, List.length_append, hall herr]

end Socket

/-- A send that fails counts nothing. -/
theorem counted_failed {cfg : Cfg} {pkg : Arg} {st : State}
    (hsend : connSend cfg c.socket pkg = (⟨n, some e⟩, st)) (b k : Nat) :
    Counted c b k (⟨n, some e⟩, c.on st) := by
  have hwrote := connSend_wrote cfg c.socket pkg
  rw [hsend] at hwrote
  exact counted_none b k (grown_on (accepted_le hwrote))

/-- A byte slice that is sent counts as one package. -/
private theorem counted_sent {cfg : Cfg} {p : Bytes} {st : State}
    (hsend : connSend cfg c.socket (.bytes p) = (⟨n, none⟩, st)) :
    Counted c p.length 1 (⟨n, none⟩, (c.on st).count p.length 1) := by
  have hwrote := connSend_bytes cfg c.socket p
  rw [conn_send, hsend] at hwrote
  exact counted_all (grown_count 1 (accepted_eq hwrote rfl))

private theorem send_bytes_counted (kind : Kind) (p : Bytes) (c : Conn) :
    Counted c p.length 1 (connectionSend kind c (.bytes p)) := by
  rcases hsend : connSend ⟨kind, c.wTimeout, 0⟩ c.socket (.bytes p) with ⟨⟨n, _ | e⟩, st⟩
  · have hsent := counted_sent hsend
    cases kind <;> simpa only [connectionSend, tcpSend, wsSend, hsend] using hsent
  · have hfailed := counted_failed hsend p.length 1
    cases kind <;> simpa only [connectionSend, tcpSend, wsSend, hsend] using hfailed

private theorem send_buffers_counted (kind : Kind) (bs : List Bytes) (c : Conn) :
    Counted c bs.flatten.length bs.length (connectionSend kind c (.buffers bs)) := by
  have htcp : Counted c bs.flatten.length bs.length (tcpSend kind c (.buffers bs)) := by
    have hwrote := connSend_wrote ⟨kind, c.wTimeout, 0⟩ c.socket (.buffers bs)
    rcases hsend : connSend ⟨kind, c.wTimeout, 0⟩ c.socket (.buffers bs) with ⟨⟨lg, _ | e⟩, st⟩
    · rw [hsend] at hwrote
      -- without an error the socket has taken the whole batch
      obtain rfl : lg = bs.flatten.length := by
        have hlg := hwrote.count_ok
        rwa [Nat.zero_add] at hlg
      simp only [tcpSend, hsend]
      exact counted_all (grown_count bs.length (accepted_eq hwrote rfl))
    · simp only [tcpSend, hsend]
      exact counted_failed hsend _ _
  cases kind with
  | ws => exact counted_refuse c bs.flatten.length bs.length .illegalType 0
  | _ => exact htcp

private theorem send_other_counted (kind : Kind) (c : Conn) (b k : Nat) :
    Counted c b k (connectionSend kind c .other) := by
  have htcp : Counted c b k (tcpSend kind c .other) := by
    obtain ⟨os, e, hsend⟩ := connSend_other ⟨kind, c.wTimeout, 0⟩ c.socket
    simp only [tcpSend, hsend]
    exact counted_failed hsend b k
  cases kind with
  | ws => exact counted_refuse c b k .illegalType 0
  | _ => exact htcp

theorem session_accounts (kind : Kind) (maxWriteMsgLen : Int) :
    Accounts (session kind maxWriteMsgLen) where
  bytes := send_bytes_counted kind
  buffers := send_buffers_counted kind
  other := send_other_counted kind
  within timeout pkg b k hsend c := by
    -- the timeouts are no part of the statistics
    obtain ⟨b', k', hgrown, hrest⟩ := hsend (c.setWriteTimeout timeout)
    exact ⟨b', k', ⟨hgrown.writeBytes, hgrown.writePkgNum, hgrown.accepted⟩, hrest⟩
  inc c := ⟨(UInt32.add_zero _).symm, rfl, Nat.le_refl _⟩
  refuse c e n b k := counted_refuse c b k e n

/-! ## What a call counts -/

theorem fragmentNum_whole (hpos : 0 < n) (hle : n ≤ maxPacketLen) : fragmentNum n = 1 := by
  simp only [fragmentNum, maxPacketLen] at *
  omega

private theorem fragmentNum_above (h : maxPacketLen < n) :
    fragmentNum n = 1 + fragmentNum (n - maxPacketLen) := by
  simp only [fragmentNum, maxPacketLen] at *
  omega

/-- What a batch of zero or several packages counts as. -/
def batchNum (type : ConnType) (pkgs : List Bytes) : Nat :=
  match type with
  | .other => fragmentNum pkgs.flatten.length + (pkgs.length - 1)
  | _ => pkgs.length

/-- What a call adds to `writePkgNum`. -/
def pkgNum (type : ConnType) : Call → Nat
  | .writeBytes pkg => packageNum type pkg.length
  | .writeBytesArray [pkg] => packageNum type pkg.length
  | .writeBytesArray pkgs => batchNum type pkgs
  | .writePkg _ _ _ => 1
  | .send pkg => pkg.packages.length

section Calls

variable {conn : Connection Conn} (haccounts : Accounts conn)
include haccounts

/-- **Loop lemma.**  What is left of the package is counted once per fragment. -/
theorem writeFragments_counted (pkg : Bytes) (writeSize left : Nat) (c : Conn)
    (hsize : writeSize + left = pkg.length) :
    Counted c left (fragmentNum left) (writeFragments conn pkg writeSize left c) := by
  fun_induction writeFragments conn pkg writeSize left c with
  | case1 writeSize left c hmore n e c₁ heq =>
      have hfrag := haccounts.bytes ((pkg.drop writeSize).take maxPacketLen) c
      rw [heq] at hfrag
      have hlen : ((pkg.drop writeSize).take maxPacketLen).length ≤ left := by
        rw [List.length_take, List.length_drop]
        omega
      have hnum := fragmentNum_above hmore
      exact hfrag.stop hlen (by omega) (writeSize + n)
  | case2 writeSize left c hmore n c₁ heq ih =>
      have hfrag := haccounts.bytes ((pkg.drop writeSize).take maxPacketLen) c
      rw [heq] at hfrag
      have hlen : ((pkg.drop writeSize).take maxPacketLen).length = maxPacketLen := by
        rw [List.length_take, List.length_drop]
        omega
      have hrest := hfrag.seq (ih (by omega))
      rwa [hlen, ← fragmentNum_above hmore, Nat.add_sub_cancel' (Nat.le_of_lt hmore)] at hrest
  | case3 writeSize c hmore => exact counted_all (Grown.refl c)
  | case4 writeSize left c hmore hleft n e c₁ heq =>
      have hlast := haccounts.bytes (pkg.drop writeSize) c
      rw [heq] at hlast
      have hlen : (pkg.drop writeSize).length = left := by
        rw [List.length_drop]
        omega
      rw [fragmentNum_whole (by omega) (by omega)]
      exact hlast.stop (Nat.le_of_eq hlen) (Nat.le_refl 1) (writeSize + n)
  | case5 writeSize left c hmore hleft n c₁ heq =>
      have hlast := haccounts.bytes (pkg.drop writeSize) c
      rw [heq] at hlast
      have hlen : (pkg.drop writeSize).length = left := by
        rw [List.length_drop]
        omega
      rw [fragmentNum_whole (by omega) (by omega), ← hlen]
      exact counted_all (hlast.grown rfl)

theorem writeBytes_counted (pkg : Bytes) (c : Conn) :
    Counted c pkg.length (packageNum conn.type pkg.length) (writeBytes conn pkg c) := by
  unfold writeBytes packageNum
  split
  · split
    · exact haccounts.refuse c _ 0 _ _
    · have hsend := haccounts.bytes pkg c
      split
      · next heq =>
          rw [heq] at hsend
          exact hsend
      · next heq =>
          rw [heq] at hsend
          exact counted_all (hsend.grown rfl)
  · exact writeFragments_counted haccounts pkg 0 pkg.length c (Nat.zero_add _)

/-- **Loop lemma.**  One package each. -/
theorem writeMessages_counted (total : Nat) (c : Conn) (ps : List Bytes) :
    Counted c ps.flatten.length ps.length (writeMessages conn total c ps) := by
  induction ps generalizing total c with
  | nil => exact counted_all (Grown.refl c)
  | cons p ps ih =>
      simp only [writeMessages, List.flatten_cons, List.length_append, List.length_cons]
      split
      · exact haccounts.refuse c _ total _ _
      · have hsend := haccounts.bytes p c
        split
        · next n e c₁ heq =>
            rw [heq] at hsend
            exact hsend.stop (by omega) (by omega) (total + n)
        · next n c₁ heq =>
            rw [heq] at hsend
            rw [Nat.add_comm ps.length 1]
            exact hsend.seq (ih (total + n) c₁)

/-- The correction makes up for the packages after the first. -/
private theorem writeMerged_counted (htype : conn.type = .other) (pkgs : List Bytes) (c : Conn) :
    Counted c pkgs.flatten.length (fragmentNum pkgs.flatten.length + (pkgs.length - 1))
      (writeMerged conn pkgs c) := by
  have hbytes := writeBytes_counted haccounts pkgs.flatten c
  rw [htype, packageNum, if_neg (by decide)] at hbytes
  unfold writeMerged
  split
  · next heq =>
      rw [heq] at hbytes
      exact hbytes.stop (Nat.le_refl _) (Nat.le_add_right _ _) _
  · next heq =>
      rw [heq] at hbytes
      exact counted_all ((hbytes.grown rfl).trans (grown_repeat haccounts.inc _ (pkgs.length - 1)))

private theorem writeBatch_counted (pkgs : List Bytes) (c : Conn) :
    Counted c pkgs.flatten.length (batchNum conn.type pkgs) (writeBatch conn pkgs c) := by
  unfold writeBatch
  cases htype : conn.type with
  | tcp => exact haccounts.buffers pkgs c
  | ws => exact writeMessages_counted haccounts 0 c pkgs
  | other => exact writeMerged_counted haccounts htype pkgs c

private theorem writeBytesArray_counted (pkgs : List Bytes) (c : Conn) :
    Counted c pkgs.flatten.length (pkgNum conn.type (.writeBytesArray pkgs))
      (writeBytesArray conn pkgs c) := by
  match pkgs with
  | [] => exact writeBatch_counted haccounts [] c
  | [pkg] =>
      rw [List.flatten_singleton]
      exact writeBytes_counted haccounts pkg c
  | p :: q :: ps => exact writeBatch_counted haccounts (p :: q :: ps) c

private theorem send_counted (pkg : Arg) (c : Conn) :
    Counted c pkg.packages.flatten.length pkg.packages.length (send conn pkg c) := by
  cases pkg with
  | bytes p =>
      rw [show (Arg.bytes p).packages.flatten = p from List.flatten_singleton]
      simp only [send]
      split
      · split
        · exact haccounts.refuse c _ 0 _ _
        · exact haccounts.bytes p c
      · exact haccounts.bytes p c
  | buffers bs => exact haccounts.buffers bs c
  | other => exact haccounts.other c 0 0

private theorem writePkg_counted (enc : Encoded) (udpCtx : Bool) (timeout : Int) (c : Conn) :
    Counted c enc.pkgBytes.length 1 (writePkg conn enc udpCtx timeout c).2 := by
  have hsend : ∀ c, Counted c enc.pkgBytes.length 1
      (conn.send c (if udpCtx then .other else .bytes enc.pkgBytes)) := by
    intro c
    cases udpCtx with
    | false => exact haccounts.bytes enc.pkgBytes c
    | true => exact haccounts.other c enc.pkgBytes.length 1
  unfold writePkg
  split
  · exact haccounts.refuse c _ 0 _ _
  · dsimp only
    split
    · exact haccounts.refuse c _ 0 _ _
    · split
      · exact haccounts.within timeout _ _ _ hsend c
      · exact hsend c

/-- **What a call adds to the statistics.** -/
theorem run_counted (call : Call) (c : Conn) :
    Counted c call.payload.length (pkgNum conn.type call) (call.run conn c) := by
  cases call with
  | writeBytes pkg =>
      rw [Call.payload, Call.packages, List.flatten_singleton]
      exact writeBytes_counted haccounts pkg c
  | writeBytesArray pkgs => exact writeBytesArray_counted haccounts pkgs c
  | writePkg enc udpCtx timeout =>
      rw [Call.payload, Call.packages, List.flatten_singleton]
      exact writePkg_counted haccounts enc udpCtx timeout c
  | send pkg => exact send_counted haccounts pkg c

end Calls

/-! ## What a sequence of calls counts -/

/-- What the calls of a sequence count as. -/
def totalBytes (ops : List Op) : Nat := (ops.map (·.call.payload.length)).sum

def totalPkgNum (type : ConnType) (ops : List Op) : Nat := (ops.map (pkgNum type ·.call)).sum

/-- The packages that the caller passed. -/
def totalPackages (ops : List Op) : Nat := (ops.map (·.call.packages.length)).sum

/-- A call that is stopped on its way to a connection that is in place has failed. -/
private theorem stopped_fails {found : Found} {call : Call} {r : Result} (hconn : found ≠ .noConn)
    (hstop : stopped found call = some r) : r = ⟨0, some .sessionClosed⟩ := by
  cases found with
  | opened => cases hstop
  | closed =>
      cases call with
      | send pkg => cases hstop
      | writeBytes pkg => exact (Option.some.inj hstop).symm
      | writeBytesArray pkgs => exact (Option.some.inj hstop).symm
      | writePkg enc udpCtx timeout => exact (Option.some.inj hstop).symm
  | noConn => exact absurd rfl hconn

private theorem op_counted {conn : Connection Conn} (haccounts : Accounts conn) (op : Op)
    (hconn : op.found ≠ .noConn) (c : Conn) :
    Counted c op.call.payload.length (pkgNum conn.type op.call) (op.run conn c) := by
  unfold Op.run
  split
  · next r hstop =>
      rw [stopped_fails hconn hstop]
      exact counted_none _ _ (Grown.refl c)
  · exact run_counted haccounts op.call c

/-- **Run lemma.**  However the calls end, the statistics do not run ahead of the socket; if all
calls succeed they count all of them. -/
theorem runAll_counted {conn : Connection Conn} (haccounts : Accounts conn) (ops : List Op)
    (hconn : ∀ op ∈ ops, op.found ≠ .noConn) (c : Conn) :
    ∃ b k, Grown c b k (runAll conn ops c).2 ∧ b ≤ totalBytes ops ∧ k ≤ totalPkgNum conn.type ops ∧
      ((∀ r ∈ (runAll conn ops c).1, r.err = none) →
        b = totalBytes ops ∧ k = totalPkgNum conn.type ops) := by
  induction ops generalizing c with
  | nil => exact ⟨0, 0, Grown.refl c, Nat.le_refl 0, Nat.le_refl 0, fun _ => ⟨rfl, rfl⟩⟩
  | cons op ops ih =>
      have hop := hconn op (List.mem_cons_self ..)
      obtain ⟨b₁, k₁, hgrown₁, hb₁, hk₁, hall₁⟩ := op_counted haccounts op hop c
      obtain ⟨b₂, k₂, hgrown₂, hb₂, hk₂, hall₂⟩ :=
        ih (fun op' hmem => hconn op' (List.mem_cons_of_mem op hmem)) (op.run conn c).2
      have hbytes : totalBytes (op :: ops) = op.call.payload.length + totalBytes ops :=
        List.sum_cons
      have hpkgs : totalPkgNum conn.type (op :: ops) =
          pkgNum conn.type op.call + totalPkgNum conn.type ops := List.sum_cons
      refine ⟨b₁ + b₂, k₁ + k₂, hgrown₁.trans hgrown₂, by omega, by omega, fun hok => ?_⟩
      obtain ⟨rfl, rfl⟩ := hall₁ (hok _ (List.mem_cons_self ..))
      obtain ⟨rfl, rfl⟩ := hall₂ (fun r hr => hok r (List.mem_cons_of_mem _ hr))
      exact ⟨hbytes.symm, hpkgs.symm⟩

/-- No package goes through `WriteBytes` that makes no send or several. -/
def Whole (call : Call) : Prop :=
  ∀ pkg, call = .writeBytes pkg ∨ call = .writeBytesArray [pkg] →
    0 < pkg.length ∧ pkg.length ≤ maxPacketLen

private theorem batchNum_eq {type : ConnType} (htype : type ≠ .other) (pkgs : List Bytes) :
    batchNum type pkgs = pkgs.length := by
  cases type with
  | tcp => rfl
  | ws => rfl
  | other => exact absurd rfl htype

/-- One package is one, on a websocket always and elsewhere if it is sent whole. -/
private theorem pkgNum_eq {type : ConnType} (htype : type ≠ .other) {call : Call}
    (hwhole : type = .ws ∨ Whole call) : pkgNum type call = call.packages.length := by
  have hone : ∀ pkg, call = .writeBytes pkg ∨ call = .writeBytesArray [pkg] →
      packageNum type pkg.length = 1 := by
    intro pkg hcall
    unfold packageNum
    split
    · rfl
    · next hws =>
        obtain ⟨hpos, hle⟩ := (hwhole.resolve_left hws) pkg hcall
        exact fragmentNum_whole hpos hle
  match call with
  | .writeBytes pkg => exact hone pkg (Or.inl rfl)
  | .writeBytesArray [] => exact batchNum_eq htype []
  | .writeBytesArray [pkg] => exact hone pkg (Or.inr rfl)
  | .writeBytesArray (p :: q :: ps) => exact batchNum_eq htype (p :: q :: ps)
  | .writePkg enc udpCtx timeout => rfl
  | .send pkg => rfl

/-- **The statistics after any sequence of successful calls.**  On a TCP or websocket connection
`writeBytes` has grown by the length of all packages.  `writePkgNum` has grown by one for each
package, except that a package that goes through `WriteBytes` on TCP counts once for every
fragment of up to `maxPacketLen` bytes; so it is the number of packages on a websocket, and on TCP
if no such package is above `maxPacketLen`. -/
theorem write_stats_exact (kind : Kind) (maxWriteMsgLen : Int) (ops : List Op) (c : Conn)
    (hconn : ∀ op ∈ ops, op.found ≠ .noConn)
    (hok : ∀ r ∈ (runAll (session kind maxWriteMsgLen) ops c).1, r.err = none) :
    let c' := (runAll (session kind maxWriteMsgLen) ops c).2
    c'.writeBytes = c.writeBytes + UInt32.ofNat (totalBytes ops) ∧
      c'.writePkgNum = c.writePkgNum + UInt32.ofNat (totalPkgNum kind.type ops) ∧
      (kind = .ws ∨ (∀ op ∈ ops, Whole op.call) →
        c'.writePkgNum = c.writePkgNum + UInt32.ofNat (totalPackages ops)) := by
  intro c'
  obtain ⟨b, k, hgrown, -, -, hall⟩ :=
    runAll_counted (session_accounts kind maxWriteMsgLen) ops hconn c
  obtain ⟨rfl, rfl⟩ := hall hok
  refine ⟨hgrown.writeBytes, hgrown.writePkgNum, fun hwhole => ?_⟩
  have hnum : totalPkgNum kind.type ops = totalPackages ops := by
    refine congrArg List.sum (List.map_congr_left fun op hmem => ?_)
    exact pkgNum_eq (type_ne_other kind)
      (hwhole.imp type_eq_ws.mpr (fun h => h op hmem))
  rw [← hnum]
  exact hgrown.writePkgNum

/-- One call of each kind on a TCP connection whose counters are about to wrap around. -/
theorem write_stats_exact_wraps :
    let ops : List Op := [⟨.opened, .writeBytes [1, 2]⟩, ⟨.opened, .writeBytesArray [[3], [4, 5]]⟩,
      ⟨.opened, .writePkg ⟨[6], none⟩ false 5⟩, ⟨.closed, .send (.bytes [7])⟩]
    let c : Conn := ⟨1000000000, 4294967295, 4294967294, ⟨[], [], false⟩⟩
    let out := runAll (session .tcp 0) ops c
    (∀ r ∈ out.1, r.err = none) ∧ out.2.writeBytes = 6 ∧ out.2.writePkgNum = 3 := by
  intro ops c out
  have hok : ∀ r ∈ out.1, r.err = none := by
    simp [out, ops, c, runAll, Op.run, stopped, Call.run, WriteCount.writeBytes, writeFragments,
      writeBytesArray, writeBatch, writePkg, send, session, Kind.type, connectionSend, tcpSend,
      connSend, armDeadline, State.setWriteDeadline, WriteCount.tcpSend, State.write, Conn.on,
      Conn.count, Conn.setWriteTimeout, maxPacketLen]
  obtain ⟨hbytes, hpkgs, -⟩ := write_stats_exact .tcp 0 ops c (by decide) hok
  exact ⟨hok, hbytes.trans (by decide), hpkgs.trans (by decide)⟩

/-- A socket without failures to come takes everything. -/
private theorem tcpSend_fresh (p : Bytes) (hfresh : c.socket.outcomes = []) :
    tcpSend .tcp c (.bytes p) = (⟨p.length, none⟩,
      (c.on ⟨[], c.socket.accepted ++ p, c.socket.refused⟩).count p.length 1) := by
  have harm : armDeadline ⟨.tcp, c.wTimeout, 0⟩ c.socket = (none, c.socket) := by
    unfold armDeadline State.setWriteDeadline
    rw [hfresh]
    split <;> rfl
  simp [tcpSend, connSend, harm, WriteCount.tcpSend, State.write, hfresh]

private theorem writeFragments_fresh (maxWriteMsgLen : Int) (pkg : Bytes) (writeSize left : Nat)
    (hfresh : c.socket.outcomes = []) :
    (writeFragments (session .tcp maxWriteMsgLen) pkg writeSize left c).1.err = none := by
  fun_induction writeFragments (session .tcp maxWriteMsgLen) pkg writeSize left c with
  | case1 writeSize left c hmore n e c₁ heq =>
      cases (tcpSend_fresh _ hfresh).symm.trans heq
  | case2 writeSize left c hmore n c₁ heq ih =>
      cases (tcpSend_fresh _ hfresh).symm.trans heq
      exact ih rfl
  | case3 writeSize c hmore => rfl
  | case4 writeSize left c hmore hleft n e c₁ heq =>
      cases (tcpSend_fresh _ hfresh).symm.trans heq
  | case5 writeSize left c hmore hleft n c₁ heq => rfl

/-- One `WriteBytes` on a TCP connection whose socket takes everything. -/
private theorem writeBytes_fresh (pkg : Bytes) (hfresh : c.socket.outcomes = []) :
    let out := runAll (session .tcp 0) [⟨.opened, .writeBytes pkg⟩] c
    (∀ r ∈ out.1, r.err = none) ∧
      out.2.writePkgNum = c.writePkgNum + UInt32.ofNat (fragmentNum pkg.length) := by
  intro out
  have hok : (writeBytes (session .tcp 0) pkg c).1.err = none :=
    writeFragments_fresh 0 pkg 0 pkg.length hfresh
  constructor
  · intro r hr
    rw [List.mem_singleton.mp hr]
    exact hok
  · have hcounted := writeBytes_counted (session_accounts .tcp 0) pkg c
    have hgrown := hcounted.grown hok
    rw [packageNum, if_neg (by decide)] at hgrown
    exact hgrown.writePkgNum

/-- A package of `maxPacketLen + 1` bytes leaves in two fragments and counts as two packages. -/
theorem fragments_counted_as_packages :
    let ops : List Op := [⟨.opened, .writeBytes (List.replicate (maxPacketLen + 1) 0)⟩]
    let out := runAll (session .tcp 0) ops ⟨1000000000, 0, 0, ⟨[], [], false⟩⟩
    (∀ r ∈ out.1, r.err = none) ∧ totalPackages ops = 1 ∧ out.2.writePkgNum = 2 := by
  intro ops out
  obtain ⟨hok, hnum⟩ := writeBytes_fresh (c := ⟨1000000000, 0, 0, ⟨[], [], false⟩⟩)
    (List.replicate (maxPacketLen + 1) 0) rfl
  rw [List.length_replicate] at hnum
  exact ⟨hok, rfl, hnum.trans (by decide)⟩

end Getty.Transport.WriteStats
