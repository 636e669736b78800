import Getty.Transport.WriteCount

/-!
# The outbound limit of a websocket

`SetMaxWriteMsgLen` limits the messages that a session hands to its `gettyWSConn`.  The check is
made in four places.  On a websocket the four calls come to one loop, that of `WriteBytesArray`
(`run_eq_writeMessages`), so what is proved about the loop holds for each of them.

The messages that a call passes to the connection are computed beside it; the connection is in
the state that exactly these messages leave it in (`writeMessages_passed`).

## Main results

* `run_eq_writeMessages` — on a websocket every call is the loop over its packages.
* `writeMessages_oversized` — what a batch with an oversized package comes to.
* `ws_write_limit_exact` — the limit over any sequence of calls.
-/

namespace Getty.Transport.WriteCount

/-! ## The session -/

/-- The limits of a session, and the write timeout of its connection. -/
structure Session where
  maxMsgLen : Int
  maxWriteMsgLen : Int
  wTimeout : Int
  deriving Repr, DecidableEq

def Session.setMaxMsgLen (s : Session) (length : Int) : Session :=
  { s with maxMsgLen := normalizeMsgLen length }

def Session.setMaxWriteMsgLen (s : Session) (length : Int) : Session :=
  { s with maxWriteMsgLen := normalizeMsgLen length }

/-- What a write on a `gettyWSConn` reads. -/
def Session.cfg (s : Session) : Cfg := ⟨.ws, s.wTimeout, s.maxWriteMsgLen⟩

/-- What a call finds: an open session, one that is closed, or one without a connection. -/
inductive Found where
  | opened
  | closed
  | noConn
  deriving Repr, DecidableEq

/-- What a call returns before it comes to the connection. -/
def stopped : Found → Call → Option Result
  | .opened, _ => none
  | .closed, .send _ => none
  | .closed, _ => some ⟨0, some .sessionClosed⟩
  | .noConn, .send _ => some ⟨0, none⟩
  | .noConn, .writePkg enc _ _ =>
      some ⟨0, some ((enc.err.map WriteErr.encode).getD .sessionClosed)⟩
  | .noConn, _ => some ⟨0, some .sessionClosed⟩

/-- What is done with a session: a change of its receive limit, or a write. -/
inductive WsOp where
  | setMaxMsgLen (length : Int)
  | write (found : Found) (call : Call)
  deriving Repr, DecidableEq

def WsOp.call (s : Session) (st : State) (found : Found) (call : Call) : Result × State :=
  match stopped found call with
  | some r => (r, st)
  | none => call.run s.cfg.conn st

def WsOp.step (s : Session) (st : State) : WsOp → Session × State
  | .setMaxMsgLen length => (s.setMaxMsgLen length, st)
  | .write found call => (s, (WsOp.call s st found call).2)

def WsOp.run (s : Session) (st : State) : List WsOp → Session × State
  | [] => (s, st)
  | op :: ops => WsOp.run (op.step s st).1 (op.step s st).2 ops

/-! ## What is passed to the connection -/

/-- The messages that the loop over some packages passes to the connection. -/
def passedMessages (cfg : Cfg) (st : State) : List Bytes → List Bytes
  | [] => []
  | p :: ps =>
      match checkWebsocketPayload cfg p.length with
      | some _ => []
      | none =>
          p ::
            match connSend cfg st (.bytes p) with
            | (⟨_, some _⟩, _) => []
            | (⟨_, none⟩, st) => passedMessages cfg st ps

/-- The packages of a call, after encoding. -/
def Call.messages : Call → List Bytes
  | .writeBytes pkg => [pkg]
  | .writeBytesArray pkgs => pkgs
  | .writePkg enc _ _ => if enc.err = none then [enc.pkgBytes] else []
  | .send (.bytes p) => [p]
  | .send _ => []

/-- The call gets as far as a `conn.Send` of byte slices, if the limit allows it. -/
def Call.sends : Call → Bool
  | .writePkg enc udpCtx _ => enc.err.isNone && !udpCtx
  | .send (.bytes _) => true
  | .send _ => false
  | _ => true

/-- The messages that a call passes to the connection. -/
def WsOp.passed (s : Session) (st : State) : WsOp → List Bytes
  | .setMaxMsgLen _ => []
  | .write found call =>
      if stopped found call = none ∧ call.sends then passedMessages s.cfg st call.messages else []

/-- The messages that a sequence of calls passes to the connection. -/
def WsOp.passedAll (s : Session) (st : State) : List WsOp → List Bytes
  | [] => []
  | op :: ops => op.passed s st ++ WsOp.passedAll (op.step s st).1 (op.step s st).2 ops

/-! ## One loop -/

/-- A message is accepted and counted as a whole, or refused and not counted. -/
theorem writeMessage_cases (st : State) (p : Bytes) :
    (∃ os, st.outcomes.drop 1 = os ∧ (∀ k, st.outcomes.head? ≠ some (.failed k)) ∧
      st.writeMessage p = (⟨p.length, none⟩, ⟨os, st.accepted ++ p, st.refused⟩)) ∨
    ∃ k os, st.outcomes = .failed k :: os ∧
      st.writeMessage p = (⟨0, some .conn⟩, ⟨os, st.accepted, true⟩) := by
  unfold State.writeMessage
  split
  · next k os h => exact Or.inr ⟨k, os, h, rfl⟩
  · next os h => exact Or.inl ⟨os, by rw [h]; rfl, by simp [h], rfl⟩
  · next h => exact Or.inl ⟨[], by rw [h]; rfl, by simp [h], rfl⟩

section Loop

variable {cfg : Cfg}

theorem connSend_ws (hws : cfg.kind = .ws) (st : State) (p : Bytes) :
    connSend cfg st (.bytes p) = st.writeMessage p := by
  rw [connSend, if_pos hws]
  rfl

theorem connSend_ws_other (hws : cfg.kind = .ws) (st : State) :
    connSend cfg st .other = st.refuse .illegalType 0 := by
  rw [connSend, if_pos hws]
  rfl

/-- The limit and then one message: `WriteBytes`, `WritePkg` and `Send` do the same as the loop
over one package. -/
theorem writeMessages_singleton (hws : cfg.kind = .ws) (st : State) (pkg : Bytes) :
    writeMessages cfg.conn 0 st [pkg] =
      match checkWebsocketPayload cfg pkg.length with
      | some e => st.refuse e 0
      | none => st.writeMessage pkg := by
  rw [writeMessages, conn_check]
  cases checkWebsocketPayload cfg pkg.length with
  | some e => rfl
  | none =>
      rw [conn_send, connSend_ws hws]
      rcases writeMessage_cases st pkg with ⟨os, -, -, h⟩ | ⟨k, os, -, h⟩
      · simp [h, writeMessages]
      · simp [h]

theorem writeBytes_ws (hws : cfg.kind = .ws) (st : State) (pkg : Bytes) :
    writeBytes cfg.conn pkg st = writeMessages cfg.conn 0 st [pkg] := by
  rw [writeBytes, if_pos (conn_type_ws hws), writeMessages_singleton hws, conn_send,
    connSend_ws hws, conn_check]
  cases checkWebsocketPayload cfg pkg.length with
  | some e => rfl
  | none =>
      rcases writeMessage_cases st pkg with ⟨os, -, -, h⟩ | ⟨k, os, -, h⟩
      · simp [h]
      · simp [h]

private theorem writeBytesArray_ws (hws : cfg.kind = .ws) (st : State) (pkgs : List Bytes) :
    writeBytesArray cfg.conn pkgs st = writeMessages cfg.conn 0 st pkgs := by
  unfold writeBytesArray
  split
  · exact writeBytes_ws hws st _
  · rw [writeBatch, conn_type_ws hws]

/-- The timeout of a `WritePkg` makes no difference on a websocket. -/
theorem writePkg_ws (hws : cfg.kind = .ws) (st : State) {enc : Encoded} (henc : enc.err = none)
    (udpCtx : Bool) (timeout : Int) :
    (writePkg cfg.conn enc udpCtx timeout st).2 =
      match checkWebsocketPayload cfg enc.pkgBytes.length with
      | some e => st.refuse e 0
      | none =>
          if udpCtx then st.refuse .illegalType 0 else st.writeMessage enc.pkgBytes := by
  have hsend : ∀ pkg, (if 0 < timeout then cfg.conn.sendWithin timeout st pkg
      else cfg.conn.send st pkg) = connSend cfg st pkg := by
    intro pkg
    split
    · exact @connSend_eq_of_ws cfg { cfg with wTimeout := timeout } hws hws st pkg
    · rfl
  simp only [writePkg, henc, if_pos (conn_type_ws hws), hsend, conn_check]
  cases checkWebsocketPayload cfg enc.pkgBytes.length with
  | some e => rfl
  | none =>
      cases udpCtx with
      | false => exact connSend_ws hws st enc.pkgBytes
      | true => exact connSend_ws_other hws st

/-- **On a websocket every call is the loop over its packages**, unless it is refused before. -/
theorem run_eq_writeMessages (hws : cfg.kind = .ws) (st : State) {call : Call}
    (hsends : call.sends = true) :
    call.run cfg.conn st = writeMessages cfg.conn 0 st call.messages := by
  cases call with
  | writeBytes pkg => exact writeBytes_ws hws st pkg
  | writeBytesArray pkgs => exact writeBytesArray_ws hws st pkgs
  | writePkg enc udpCtx timeout =>
      simp only [Call.sends, Bool.and_eq_true, Option.isNone_iff_eq_none,
        Bool.not_eq_true'] at hsends
      obtain ⟨henc, rfl⟩ := hsends
      rw [Call.run, writePkg_ws hws st henc, Call.messages, if_pos henc,
        writeMessages_singleton hws]
      rfl
  | send pkg =>
      cases pkg with
      | bytes p =>
          rw [Call.run, send, if_pos (conn_type_ws hws), Call.messages,
            writeMessages_singleton hws, conn_check]
          cases checkWebsocketPayload cfg p.length with
          | some e => rfl
          | none => exact connSend_ws hws st p
      | buffers bs => cases hsends
      | other => cases hsends

/-- A call that hands no byte slice over is refused: by the `Writer`, by the limit, or for the
type of its package. -/
private theorem run_refused (hws : cfg.kind = .ws) (st : State) {call : Call}
    (hsends : call.sends = false) :
    ∃ e, call.run cfg.conn st = st.refuse e 0 ∧
      (call.messages = [] ∧ (∀ n l, e ≠ .tooLarge n l) ∨
        ∃ p, call.messages = [p] ∧
          e = (checkWebsocketPayload cfg p.length).getD .illegalType) := by
  cases call with
  | writeBytes pkg => cases hsends
  | writeBytesArray pkgs => cases hsends
  | writePkg enc udpCtx timeout =>
      cases henc : enc.err with
      | some msg =>
          refine ⟨.encode msg, ?_, Or.inl ⟨?_, fun n l h => by cases h⟩⟩
          · rw [Call.run, writePkg, henc]
            rfl
          · rw [Call.messages, if_neg (by simp [henc])]
      | none =>
          obtain rfl : udpCtx = true := by simpa [Call.sends, henc] using hsends
          refine ⟨_, ?_, Or.inr ⟨enc.pkgBytes, ?_, rfl⟩⟩
          · rw [Call.run, writePkg_ws hws st henc]
            cases checkWebsocketPayload cfg enc.pkgBytes.length <;> rfl
          · rw [Call.messages, if_pos henc]
  | send pkg =>
      cases pkg with
      | bytes p => cases hsends
      | buffers bs =>
          refine ⟨.illegalType, ?_, Or.inl ⟨rfl, fun n l h => by cases h⟩⟩
          show connSend cfg st (.buffers bs) = _
          rw [connSend, if_pos hws]
          rfl
      | other =>
          refine ⟨.illegalType, ?_, Or.inl ⟨rfl, fun n l h => by cases h⟩⟩
          exact connSend_ws_other hws st

/-! ## The limit in the loop -/

theorem checkWebsocketPayload_none_iff (hpos : 0 < cfg.maxWriteMsgLen) {n : Nat} :
    checkWebsocketPayload cfg n = none ↔ (n : Int) ≤ cfg.maxWriteMsgLen := by
  unfold checkWebsocketPayload
  split
  · next h => exact ⟨fun _ => h.resolve_left (by omega), fun _ => rfl⟩
  · next h => exact ⟨(fun h' => by cases h'), fun h' => absurd (Or.inr h') h⟩

theorem checkWebsocketPayload_some (hpos : 0 < cfg.maxWriteMsgLen) {n : Nat}
    (h : cfg.maxWriteMsgLen < (n : Int)) :
    checkWebsocketPayload cfg n = some (.tooLarge n cfg.maxWriteMsgLen) := by
  rw [checkWebsocketPayload, if_neg (by omega)]

/-- One turn of the loop: the package is too large, its message fails, or it is accepted and the
loop goes on. -/
theorem writeMessages_cons (hws : cfg.kind = .ws) (hpos : 0 < cfg.maxWriteMsgLen) (total : Nat)
    (st : State) (p : Bytes) (ps : List Bytes) :
    let st' := (st.writeMessage p).2
    (cfg.maxWriteMsgLen < (p.length : Int) ∧ passedMessages cfg st (p :: ps) = [] ∧
      writeMessages cfg.conn total st (p :: ps) =
        st.refuse (.tooLarge p.length cfg.maxWriteMsgLen) total) ∨
    ((p.length : Int) ≤ cfg.maxWriteMsgLen ∧ passedMessages cfg st (p :: ps) = [p] ∧
      (∃ k, st.outcomes.head? = some (.failed k)) ∧
      writeMessages cfg.conn total st (p :: ps) = (⟨total, some .conn⟩, st')) ∨
    ((p.length : Int) ≤ cfg.maxWriteMsgLen ∧
      passedMessages cfg st (p :: ps) = p :: passedMessages cfg st' ps ∧
      (st'.outcomes = st.outcomes.drop 1 ∧ st'.accepted = st.accepted ++ p) ∧
      writeMessages cfg.conn total st (p :: ps) =
        writeMessages cfg.conn (total + p.length) st' ps) := by
  intro st'
  by_cases hle : (p.length : Int) ≤ cfg.maxWriteMsgLen
  · have hcheck := (checkWebsocketPayload_none_iff hpos).mpr hle
    rcases writeMessage_cases st p with ⟨os, hos, -, hsend⟩ | ⟨k, os, hos, hsend⟩
    · refine Or.inr (Or.inr ⟨hle, ?_, ?_, ?_⟩)
      · simp only [passedMessages, hcheck, connSend_ws hws, hsend, st']
      · simp only [hsend, st', hos, and_self]
      · simp only [writeMessages, conn_check, hcheck, conn_send, connSend_ws hws, hsend, st']
    · refine Or.inr (Or.inl ⟨hle, ?_, ⟨k, by rw [hos]; rfl⟩, ?_⟩)
      · simp only [passedMessages, hcheck, connSend_ws hws, hsend]
      · simp only [writeMessages, conn_check, hcheck, conn_send, connSend_ws hws, hsend,
          Nat.add_zero, st']
  · have hlt : cfg.maxWriteMsgLen < (p.length : Int) := Int.not_le.mp hle
    have hcheck := checkWebsocketPayload_some hpos hlt
    refine Or.inl ⟨hlt, ?_, ?_⟩
    · simp only [passedMessages, hcheck]
    · simp only [writeMessages, conn_check, hcheck]
      rfl

/-- The messages are the first packages, and none is above the limit. -/
theorem passedMessages_within (hws : cfg.kind = .ws) (hpos : 0 < cfg.maxWriteMsgLen) (st : State)
    (ps : List Bytes) :
    passedMessages cfg st ps <+: ps ∧
      ∀ p ∈ passedMessages cfg st ps, (p.length : Int) ≤ cfg.maxWriteMsgLen := by
  induction ps generalizing st with
  | nil => exact ⟨List.prefix_rfl, fun p hp => by cases hp⟩
  | cons p ps ih =>
      rcases writeMessages_cons hws hpos 0 st p ps with
        ⟨-, hpassed, -⟩ | ⟨hle, hpassed, -⟩ | ⟨hle, hpassed, -⟩
      · rw [hpassed]
        exact ⟨ List.nil_prefix, fun p hp => by cases hp⟩
      · rw [hpassed]
        refine ⟨(List.prefix_cons_inj p).mpr List.nil_prefix, fun q hq => ?_⟩
        rwa [List.mem_singleton.mp hq]
      · rw [hpassed]
        refine ⟨(List.prefix_cons_inj p).mpr (ih _).1, fun q hq => ?_⟩
        rcases List.mem_cons.mp hq with rfl | hmem
        · exact hle
        · exact (ih _).2 q hmem

/-- The connection is in the state that the messages leave it in. -/
theorem writeMessages_passed (hws : cfg.kind = .ws) (hpos : 0 < cfg.maxWriteMsgLen) (total : Nat)
    (st : State) (ps : List Bytes) :
    let after := (passedMessages cfg st ps).foldl (fun st p => (st.writeMessage p).2) st
    (writeMessages cfg.conn total st ps).2.outcomes = after.outcomes ∧
      (writeMessages cfg.conn total st ps).2.accepted = after.accepted := by
  induction ps generalizing total st with
  | nil => exact ⟨rfl, rfl⟩
  | cons p ps ih =>
      rcases writeMessages_cons hws hpos total st p ps with
        ⟨-, hpassed, hrun⟩ | ⟨-, hpassed, -, hrun⟩ | ⟨-, hpassed, -, hrun⟩
      · rw [hpassed, hrun]
        exact ⟨rfl, rfl⟩
      · rw [hpassed, hrun]
        exact ⟨rfl, rfl⟩
      · rw [hpassed, hrun]
        exact ih (total + p.length) _

/-- A batch whose packages are within the limit is not refused for it. -/
theorem writeMessages_allowed (hws : cfg.kind = .ws) (hpos : 0 < cfg.maxWriteMsgLen) (total : Nat)
    (st : State) {ps : List Bytes} (h : ∀ p ∈ ps, (p.length : Int) ≤ cfg.maxWriteMsgLen) (n : Nat)
    (l : Int) : (writeMessages cfg.conn total st ps).1.err ≠ some (.tooLarge n l) := by
  induction ps generalizing total st with
  | nil => simp [writeMessages]
  | cons p ps ih =>
      have hp := h p List.mem_cons_self
      rcases writeMessages_cons hws hpos total st p ps with
        ⟨hlt, -, -⟩ | ⟨-, -, -, hrun⟩ | ⟨-, -, -, hrun⟩
      · omega
      · simp [hrun]
      · rw [hrun]
        exact ih (total + p.length) _ fun q hq => h q (List.mem_cons_of_mem p hq)

/-- What becomes of a batch whose package after `pre` is the first one above the limit: either
`pre` is sent and the package refused, or a message of `pre` fails. -/
theorem writeMessages_oversized (hws : cfg.kind = .ws) (hpos : 0 < cfg.maxWriteMsgLen)
    (total : Nat) (st : State) {pre : List Bytes} {p : Bytes}
    (hpre : ∀ q ∈ pre, (q.length : Int) ≤ cfg.maxWriteMsgLen)
    (hp : cfg.maxWriteMsgLen < (p.length : Int)) (post : List Bytes) :
    let out := writeMessages cfg.conn total st (pre ++ p :: post)
    out.1.err = some (.tooLarge p.length cfg.maxWriteMsgLen) ∧
        out.1.count = total + pre.flatten.length ∧
        out.2.accepted = st.accepted ++ pre.flatten ∧
        passedMessages cfg st (pre ++ p :: post) = pre ∨
      out.1.err = some .conn ∧ passedMessages cfg st (pre ++ p :: post) <+: pre ∧
        ∃ i k, i < pre.length ∧ st.outcomes[i]? = some (.failed k) := by
  induction pre generalizing total st with
  | nil =>
      rcases writeMessages_cons hws hpos total st p post with
        ⟨-, hpassed, hrun⟩ | ⟨hle, -⟩ | ⟨hle, -⟩
      · rw [List.nil_append, hpassed, hrun]
        exact Or.inl ⟨rfl, rfl, (List.append_nil _).symm, rfl⟩
      · omega
      · omega
  | cons q pre ih =>
      have hq := hpre q List.mem_cons_self
      rcases writeMessages_cons hws hpos total st q (pre ++ p :: post) with
        ⟨hlt, -⟩ | ⟨-, hpassed, ⟨k, hk⟩, hrun⟩ | ⟨-, hpassed, ⟨hos, hacc⟩, hrun⟩
      · omega
      · rw [List.cons_append, hpassed, hrun]
        refine Or.inr ⟨rfl, (List.prefix_cons_inj q).mpr List.nil_prefix, 0, k, ?_, ?_⟩
        · exact Nat.succ_pos _
        · rw [← List.head?_eq_getElem?, hk]
      · rw [List.cons_append, hpassed, hrun]
        rcases ih (total + q.length) (st.writeMessage q).2
            (fun r hr => hpre r (List.mem_cons_of_mem q hr)) with
          ⟨herr, hcount, haccepted, hall⟩ | ⟨herr, hsent, i, k, hi, hk⟩
        · refine Or.inl ⟨herr, ?_, ?_, congrArg (List.cons q) hall⟩
          · rw [hcount, List.flatten_cons, List.length_append, Nat.add_assoc]
          · rw [haccepted, hacc, List.flatten_cons, List.append_assoc]
        · refine Or.inr ⟨herr, (List.prefix_cons_inj q).mpr hsent, i + 1, k, ?_, ?_⟩
          · rw [List.length_cons]
            omega
          · rw [hos, List.getElem?_drop, Nat.add_comm] at hk
            exact hk

end Loop

/-! ## Calls -/

/-- What a call with the limit `M` does that finds the connection in state `st`. -/
structure CallExact (M : Int) (call : Call) (st : State) (out : Result × State)
    (passed : List Bytes) : Prop where
  within : ∀ p ∈ passed, (p.length : Int) ≤ M
  first : passed <+: call.messages
  state : out.2.outcomes = (passed.foldl (fun st p => (st.writeMessage p).2) st).outcomes ∧
    out.2.accepted = (passed.foldl (fun st p => (st.writeMessage p).2) st).accepted
  oversized : ∀ pre p post, call.messages = pre ++ p :: post →
    (∀ q ∈ pre, (q.length : Int) ≤ M) → M < (p.length : Int) →
    out.1.err = some (.tooLarge p.length M) ∧ out.1.count = pre.flatten.length ∧
        out.2.accepted = st.accepted ++ pre.flatten ∧ passed = pre ∨
      out.1.err = some .conn ∧ passed <+: pre ∧
        ∃ i k, i < pre.length ∧ st.outcomes[i]? = some (.failed k)
  allowed : (∀ p ∈ call.messages, (p.length : Int) ≤ M) →
    ∀ n l, out.1.err ≠ some (.tooLarge n l)

/-- A call that comes to the loop. -/
theorem callExact_sends {s : Session} (hpos : 0 < s.maxWriteMsgLen) (st : State) {call : Call}
    (hsends : call.sends = true) :
    CallExact s.maxWriteMsgLen call st (call.run s.cfg.conn st)
      (passedMessages s.cfg st call.messages) := by
  rw [run_eq_writeMessages rfl st hsends]
  have hws : s.cfg.kind = .ws := rfl
  obtain ⟨hfirst, hwithin⟩ := passedMessages_within hws hpos st call.messages
  refine ⟨hwithin, hfirst, writeMessages_passed rfl hpos 0 st _, ?_, ?_⟩
  · intro pre p post hmessages hpre hp
    have hover := writeMessages_oversized hws hpos 0 st hpre hp post
    rw [← hmessages, Nat.zero_add] at hover
    exact hover
  · exact writeMessages_allowed hws hpos 0 st

/-- A call that is refused before. -/
theorem callExact_refused {s : Session} (hpos : 0 < s.maxWriteMsgLen) (st : State) {call : Call}
    (hsends : call.sends = false) :
    CallExact s.maxWriteMsgLen call st (call.run s.cfg.conn st) [] := by
  have hws : s.cfg.kind = .ws := rfl
  have hlimit : 0 < s.cfg.maxWriteMsgLen := hpos
  obtain ⟨e, hrun, hcause⟩ := run_refused hws st hsends
  rw [hrun]
  refine ⟨(fun p hp => by cases hp), List.nil_prefix, ⟨rfl, rfl⟩, ?_, ?_⟩
  · intro pre p post hmessages hpre hp
    rcases hcause with ⟨hnil, -⟩ | ⟨p', hone, rfl⟩
    · rw [hnil] at hmessages
      simp at hmessages
    · rw [hone] at hmessages
      cases pre with
      | nil =>
          obtain ⟨rfl, -⟩ := List.cons.inj hmessages
          rw [checkWebsocketPayload_some hlimit hp]
          exact Or.inl ⟨rfl, rfl, (List.append_nil _).symm, rfl⟩
      | cons q pre => simp at hmessages
  · intro hall n l herr
    rcases hcause with ⟨-, hne⟩ | ⟨p, hone, rfl⟩
    · exact hne n l (Option.some.inj herr)
    · rw [hone] at hall
      rw [(checkWebsocketPayload_none_iff hlimit).mpr
        (hall p List.mem_cons_self)] at herr
      cases herr

/-- A call that finds the session closed or without a connection. -/
theorem stopped_spec {found : Found} {call : Call} {r : Result} (h : stopped found call = some r)
    (n : Nat) (l : Int) : r.err ≠ some (.tooLarge n l) := by
  cases found with
  | opened => cases h
  | closed => cases call <;> cases h <;> simp
  | noConn =>
      cases call with
      | writePkg enc udpCtx timeout =>
          cases h
          cases enc.err <;> simp
      | writeBytes pkg => cases h; simp
      | writeBytesArray pkgs => cases h; simp
      | send pkg => cases h; simp

/-! ## Sequences of calls -/

/-- The write limit stays. -/
theorem WsOp.run_maxWriteMsgLen (s : Session) (st : State) (ops : List WsOp) :
    (WsOp.run s st ops).1.maxWriteMsgLen = s.maxWriteMsgLen := by
  induction ops generalizing s st with
  | nil => rfl
  | cons op ops ih =>
      rw [WsOp.run, ih]
      cases op <;> rfl

theorem WsOp.passed_within {s : Session} (hpos : 0 < s.maxWriteMsgLen) (st : State) (op : WsOp) :
    ∀ p ∈ op.passed s st, (p.length : Int) ≤ s.maxWriteMsgLen := by
  intro p hp
  cases op with
  | setMaxMsgLen length => cases hp
  | write found call =>
      rw [WsOp.passed] at hp
      split at hp
      · next h => exact (callExact_sends hpos st h.2).within p hp
      · cases hp

/-- **Run lemma.**  No message above the limit is passed to the connection. -/
theorem WsOp.passedAll_within {s : Session} (hpos : 0 < s.maxWriteMsgLen) (st : State)
    (ops : List WsOp) :
    ∀ p ∈ WsOp.passedAll s st ops, (p.length : Int) ≤ s.maxWriteMsgLen := by
  induction ops generalizing s st with
  | nil => intro p hp; cases hp
  | cons op ops ih =>
      have hkeep : (op.step s st).1.maxWriteMsgLen = s.maxWriteMsgLen := by cases op <;> rfl
      intro p hp
      rcases List.mem_append.mp hp with hhere | hlater
      · exact WsOp.passed_within hpos st op p hhere
      · rw [← hkeep]
        exact ih (hkeep ▸ hpos) _ p hlater

private theorem normalizeMsgLen_eq {length : Int} (h : 0 < length) :
    normalizeMsgLen length = min length maxInt32 := by
  rw [normalizeMsgLen, if_neg (by omega)]
  split <;> omega

/-- **The outbound limit has no hole.**  After `SetMaxWriteMsgLen(L)`, whatever is written and
whatever becomes of the receive limit: no message of more than `L` bytes is passed to the
websocket, and every call keeps to the limit, which is `L` or the largest `int32`. -/
theorem ws_write_limit_exact (s : Session) {L : Int} (hL : 0 < L) (st : State)
    (ops : List WsOp) :
    (∀ p ∈ WsOp.passedAll (s.setMaxWriteMsgLen L) st ops, (p.length : Int) ≤ L) ∧
    ∀ pre found call post, ops = pre ++ .write found call :: post →
      ∀ s' st', WsOp.run (s.setMaxWriteMsgLen L) st pre = (s', st') →
        (stopped found call = none →
          CallExact (min L maxInt32) call st' (WsOp.call s' st' found call)
            ((WsOp.write found call).passed s' st')) ∧
        (stopped found call ≠ none → (WsOp.write found call).passed s' st' = [] ∧
          (WsOp.call s' st' found call).2 = st' ∧
          ∀ n l, (WsOp.call s' st' found call).1.err ≠ some (.tooLarge n l)) := by
  have hpos : 0 < (s.setMaxWriteMsgLen L).maxWriteMsgLen := normalizeMsgLen_pos hL
  have hlimit : (s.setMaxWriteMsgLen L).maxWriteMsgLen = min L maxInt32 := normalizeMsgLen_eq hL
  constructor
  · intro p hp
    have hle := WsOp.passedAll_within hpos st ops p hp
    omega
  · intro pre found call post _ s' st' hrun
    have hkeep : s'.maxWriteMsgLen = min L maxInt32 := by
      have hsame := WsOp.run_maxWriteMsgLen (s.setMaxWriteMsgLen L) st pre
      rwa [hrun, hlimit] at hsame
    have hpos' : 0 < s'.maxWriteMsgLen := by omega
    constructor
    · intro hgoes
      rw [WsOp.call, hgoes, WsOp.passed, ← hkeep]
      cases hsends : call.sends with
      | true =>
          rw [if_pos ⟨hgoes, rfl⟩]
          exact callExact_sends hpos' st' hsends
      | false =>
          rw [if_neg (by simp)]
          exact callExact_refused hpos' st' hsends
    · intro hstopped
      obtain ⟨r, hr⟩ := Option.ne_none_iff_exists'.mp hstopped
      rw [WsOp.call, hr, WsOp.passed, if_neg (by simp [hr])]
      exact ⟨rfl, rfl, stopped_spec hr⟩

/-- A batch of which the third package is above the limit, on a session with a receive limit of
four bytes. -/
theorem ws_write_limit_exact_batch :
    (WsOp.call ((⟨4, 0, 0⟩ : Session).setMaxWriteMsgLen 5) ⟨[], [], false⟩ .opened
      (.writeBytesArray [[1], [1, 2, 3, 4, 5], [1, 2, 3, 4, 5, 6], [7]])).1 =
        ⟨6, some (.tooLarge 6 5)⟩ ∧
    (WsOp.write .opened (.writeBytesArray [[1], [1, 2, 3, 4, 5], [1, 2, 3, 4, 5, 6], [7]])).passed
      ((⟨4, 0, 0⟩ : Session).setMaxWriteMsgLen 5) ⟨[], [], false⟩ = [[1], [1, 2, 3, 4, 5]] := by
  have hexact := ((ws_write_limit_exact ⟨4, 0, 0⟩ (L := 5) (by decide) ⟨[], [], false⟩
    [.write .opened (.writeBytesArray [[1], [1, 2, 3, 4, 5], [1, 2, 3, 4, 5, 6], [7]])]).2
      [] .opened _ [] rfl _ _ rfl).1 rfl
  rcases hexact.oversized [[1], [1, 2, 3, 4, 5]] [1, 2, 3, 4, 5, 6] [[7]] rfl (by decide)
      (by decide) with ⟨herr, hcount, -, hpassed⟩ | ⟨-, -, i, k, -, hfailed⟩
  · exact ⟨congr (congrArg Result.mk hcount) herr, hpassed⟩
  · simp at hfailed

/-- A package that `L` allows and the largest `int32` does not. -/
private theorem writeBytes_above_int32 (s : Session) (st : State) {pkg : Bytes}
    (hlen : pkg.length = 2147483648) :
    (WsOp.call (s.setMaxWriteMsgLen 2147483648) st .opened (.writeBytes pkg)).1 =
      ⟨0, some (.tooLarge 2147483648 2147483647)⟩ := by
  have hpos : 0 < (s.setMaxWriteMsgLen 2147483648).cfg.maxWriteMsgLen :=
    show 0 < normalizeMsgLen 2147483648 by decide
  have hcheck := checkWebsocketPayload_some hpos
    (show normalizeMsgLen 2147483648 < ((2147483648 : Nat) : Int) by decide)
  show (writeBytes _ pkg st).1 = _
  rw [writeBytes_ws rfl, writeMessages_singleton rfl, hlen, hcheck]
  rfl

/-- **A limit above the largest `int32` is cut.**  A package of 2 GiB is refused under a limit of
2 GiB. -/
theorem write_limit_cut_to_int32 :
    (List.replicate 2147483648 (0 : UInt8)).length ≤ 2147483648 ∧
    (WsOp.call ((⟨4, 0, 0⟩ : Session).setMaxWriteMsgLen 2147483648) ⟨[], [], false⟩ .opened
      (.writeBytes (List.replicate 2147483648 0))).1 =
        ⟨0, some (.tooLarge 2147483648 2147483647)⟩ :=
  ⟨Nat.le_of_eq List.length_replicate, writeBytes_above_int32 _ _ List.length_replicate⟩

end Getty.Transport.WriteCount
