import Getty.Transport.TcpReadLoop

/-!
# The receive limit of the TCP loop

What `handleTCPPackage` does with a fixed limit, whatever the `Reader` reports.  The
trace of a run lists its receives, `Reader` calls and dispatches; it is computed beside
the loop and tied to it by `handleTCPPackage_messages`.

The limit bounds what is left in `pktBuf` when decoding stalls, not what one round
decodes: a batch of packages may exceed it.  Between two rounds at most `L` bytes are
buffered, and a round adds at most one receive to them.

## Main results

* `handleTCPPackage_messages` — what reaches `OnMessage` are the dispatches of the trace.
* `tcp_limits_hold` — the bounds on the buffer and the packages, and that the first
  oversized result ends the loop with an error.
-/

namespace Getty.Transport.Tcp

variable {P : Type}

/-! ## The trace of a run -/

/-- What the loop does: `recv` returns some bytes, the `Reader` is called with the
buffer, and the package of a call is given to `addTask`. -/
inductive Event where
  | recv (data : Bytes)
  | read (call : Nat) (data : Bytes)
  | dispatch (call : Nat) (data : Bytes)
  deriving Repr, DecidableEq

/-- The events of a decode loop over `buf` whose next `Reader` call has number `k`. -/
def decodeEvents (env : Env P) : Nat → Nat → Bytes → List Event
  | fuel, k, buf =>
      if buf = [] then []
      else
        match fuel with
        | 0 => []
        | fuel + 1 =>
            .read k buf ::
              match checkPackage (env.maxMsgLen k) (env.read k buf) buf.length with
              | some _ => []
              | none =>
                  match (env.read k buf).pkg with
                  | none => []
                  | some _ =>
                      .dispatch k buf ::
                        match next (env.read k buf).pkgLen buf with
                        | none => []
                        | some rest => decodeEvents env fuel (k + 1) rest

/-- The events of one round. -/
def recvEvents (env : Env P) (fuel : Nat) (rc : RecvResult) (st : State P) : List Event :=
  .recv rc.data ::
    if rc.data = [] then [] else decodeEvents env fuel st.reads (st.pktBuf ++ rc.data)

/-- The events of the outer loop. -/
def loopEvents (env : Env P) (fuel : Nat) : List Round → State P → List Event
  | [], _ => []
  | r :: rs, st =>
      if r.closed then []
      else
        recvEvents env fuel r.recv st ++
          match recvRound env fuel r.recv st with
          | .ok st' => if st'.exit then [] else loopEvents env fuel rs st'
          | .panicked _ => []
          | .outOfFuel => []

/-- The events of `handleTCPPackage`. -/
def trace (env : Env P) (fuel : Nat) (handshake : Option String) (rounds : List Round) :
    List Event :=
  match handshake with
  | some _ => []
  | none => loopEvents env fuel rounds State.init

/-- The packages of the dispatches that find the session open. -/
def delivered (env : Env P) (events : List Event) : List P :=
  events.filterMap fun
    | .dispatch k data => if env.taskOpen k then (env.read k data).pkg else none
    | _ => none

/-- The packages that have reached `OnMessage`, for a run that is not inside a decode
loop. -/
def Outcome.messages : Outcome P → Option (List P)
  | .returned _ messages => some messages
  | .panicked messages => some messages
  | .blocked st => some st.messages
  | .decoding => none

def Decoded.messages : Decoded P → Option (List P)
  | .ok st => some st.messages
  | .panicked messages => some messages
  | .outOfFuel => none

theorem decodeEvents_nil (env : Env P) (fuel k : Nat) : decodeEvents env fuel k [] = [] := by
  unfold decodeEvents
  rfl

private theorem decodeEvents_zero (env : Env P) (k : Nat) (buf : Bytes) :
    decodeEvents env 0 k buf = [] := by
  unfold decodeEvents
  split <;> rfl

/-- A decode loop from `st`, how it ends and its events. -/
inductive DecodeRun (env : Env P) : State P → Decoded P → List Event → Prop where
  | empty {st : State P} (hnil : st.pktBuf = []) : DecodeRun env st (.ok st) []
  | outOfFuel {st : State P} : DecodeRun env st .outOfFuel []
  | rejected {st : State P} {e : LoopErr}
      (hcheck : checkPackage (env.maxMsgLen st.reads) (env.read st.reads st.pktBuf)
        st.pktBuf.length = some e) :
      DecodeRun env st (.ok { st with err := some e, exit := true, reads := st.reads + 1 })
        [.read st.reads st.pktBuf]
  | stalled {st : State P}
      (hcheck : checkPackage (env.maxMsgLen st.reads) (env.read st.reads st.pktBuf)
        st.pktBuf.length = none)
      (hpkg : (env.read st.reads st.pktBuf).pkg = none) :
      DecodeRun env st (.ok { st with err := none, reads := st.reads + 1 })
        [.read st.reads st.pktBuf]
  | negative {st : State P} {pkg : P}
      (hcheck : checkPackage (env.maxMsgLen st.reads) (env.read st.reads st.pktBuf)
        st.pktBuf.length = none)
      (hpkg : (env.read st.reads st.pktBuf).pkg = some pkg) :
      DecodeRun env st (.panicked (addTask (env.taskOpen st.reads) pkg st.messages))
        [.read st.reads st.pktBuf, .dispatch st.reads st.pktBuf]
  | package {st : State P} {pkg : P} {rest : Bytes} {d : Decoded P} {events : List Event}
      (hcheck : checkPackage (env.maxMsgLen st.reads) (env.read st.reads st.pktBuf)
        st.pktBuf.length = none)
      (hpkg : (env.read st.reads st.pktBuf).pkg = some pkg)
      (hrest : rest.length ≤ st.pktBuf.length)
      (hrun : DecodeRun env ⟨none, st.exit, rest, st.reads + 1,
        addTask (env.taskOpen st.reads) pkg st.messages⟩ d events) :
      DecodeRun env st d (.read st.reads st.pktBuf :: .dispatch st.reads st.pktBuf :: events)

private theorem next_length_le {n : Int} {buf rest : Bytes} (h : next n buf = some rest) :
    rest.length ≤ buf.length := by
  unfold next at h
  split at h
  · cases h
  · cases h
    rw [List.length_drop]
    omega

/-- The decode loop and the events computed beside it. -/
theorem decode_run (env : Env P) (fuel : Nat) (st : State P) :
    DecodeRun env st (decode env fuel st) (decodeEvents env fuel st.reads st.pktBuf) := by
  induction fuel generalizing st with
  | zero =>
      rw [decodeEvents_zero]
      by_cases hnil : st.pktBuf = []
      · rw [decode_nil env 0 st hnil]
        exact DecodeRun.empty hnil
      · rw [decode_zero env st hnil]
        exact DecodeRun.outOfFuel
  | succ fuel ih =>
      by_cases hnil : st.pktBuf = []
      · rw [decode_nil env _ st hnil, hnil, decodeEvents_nil]
        exact DecodeRun.empty hnil
      · rw [decode, if_neg hnil, decodeEvents, if_neg hnil]
        dsimp only
        cases hc : checkPackage (env.maxMsgLen st.reads) (env.read st.reads st.pktBuf)
            st.pktBuf.length with
        | some e => exact DecodeRun.rejected hc
        | none =>
            cases hp : (env.read st.reads st.pktBuf).pkg with
            | none => exact DecodeRun.stalled hc hp
            | some pkg =>
                cases hn : next (env.read st.reads st.pktBuf).pkgLen st.pktBuf with
                | none => exact DecodeRun.negative hc hp
                | some rest => exact DecodeRun.package hc hp (next_length_le hn) (ih _)

/-- The decode loop of a round that received something. -/
theorem recvRound_run (env : Env P) (fuel : Nat) {rc : RecvResult} (st : State P)
    (hne : rc.data ≠ []) :
    ∃ events, recvEvents env fuel rc st = .recv rc.data :: events ∧
      DecodeRun env ((st.afterRecv rc.err).buffer rc.data) (recvRound env fuel rc st) events := by
  have hrun := decode_run env fuel ((st.afterRecv rc.err).buffer rc.data)
  rw [buffer_reads, afterRecv_reads, buffer_pktBuf, afterRecv_pktBuf] at hrun
  refine ⟨decodeEvents env fuel st.reads (st.pktBuf ++ rc.data), ?_, ?_⟩
  · rw [recvEvents, if_neg hne]
  · rw [recvRound, if_neg hne]
    exact hrun

/-! ## What is delivered -/

@[simp] theorem delivered_nil (env : Env P) : delivered env [] = [] := rfl

@[simp] theorem delivered_recv (env : Env P) (data : Bytes) (events : List Event) :
    delivered env (.recv data :: events) = delivered env events := rfl

@[simp] theorem delivered_read (env : Env P) (k : Nat) (data : Bytes) (events : List Event) :
    delivered env (.read k data :: events) = delivered env events := rfl

private theorem delivered_append (env : Env P) (es fs : List Event) :
    delivered env (es ++ fs) = delivered env es ++ delivered env fs := List.filterMap_append

/-- A dispatch in front of a trace is one `addTask`. -/
private theorem addTask_append_delivered (env : Env P) (k : Nat) (data : Bytes) {pkg : P}
    (messages : List P) (events : List Event) (hpkg : (env.read k data).pkg = some pkg) :
    addTask (env.taskOpen k) pkg messages ++ delivered env events =
      messages ++ delivered env (.dispatch k data :: events) := by
  cases hopen : env.taskOpen k with
  | true => simp [addTask, delivered, hopen, hpkg]
  | false => simp [addTask, delivered, hopen]

/-- **Step lemma.**  What a decode loop hands to the listener. -/
theorem DecodeRun.messages {env : Env P} {st : State P} {d : Decoded P} {events : List Event}
    (h : DecodeRun env st d events) {messages : List P} (hd : d.messages = some messages) :
    messages = st.messages ++ delivered env events := by
  induction h generalizing messages with
  | empty => cases hd; simp
  | outOfFuel => cases hd
  | rejected => cases hd; simp
  | stalled => cases hd; simp
  | negative _ hpkg =>
      cases hd
      rw [delivered_read, ← addTask_append_delivered env _ _ _ _ hpkg, delivered_nil,
        List.append_nil]
  | package _ hpkg _ _ ih =>
      rw [delivered_read, ← addTask_append_delivered env _ _ _ _ hpkg]
      exact ih hd

private theorem recvRound_messages (env : Env P) (fuel : Nat) (rc : RecvResult) (st : State P)
    {messages : List P} (h : (recvRound env fuel rc st).messages = some messages) :
    messages = st.messages ++ delivered env (recvEvents env fuel rc st) := by
  by_cases hnil : rc.data = []
  · rw [recvRound, if_pos hnil] at h
    cases h
    rw [recvEvents, if_pos hnil, delivered_recv, delivered_nil, List.append_nil,
      afterRecv_messages]
  · obtain ⟨events, hevents, hrun⟩ := recvRound_run env fuel st hnil
    rw [hevents, delivered_recv, hrun.messages h, buffer_messages, afterRecv_messages]

/-- **Run lemma.**  What a run hands to the listener are the dispatches of its trace. -/
theorem loop_messages (env : Env P) (fuel : Nat) (rs : List Round) (st : State P)
    {messages : List P} (h : (loop env fuel rs st).messages = some messages) :
    messages = st.messages ++ delivered env (loopEvents env fuel rs st) := by
  induction rs generalizing st with
  | nil => cases h; simp [loopEvents]
  | cons r rs ih =>
      simp only [loop, loopEvents] at h ⊢
      cases hclosed : r.closed with
      | true =>
          rw [hclosed] at h
          cases h
          simp
      | false =>
          simp only [hclosed, Bool.false_eq_true, if_false] at h ⊢
          rw [delivered_append, ← List.append_assoc]
          cases hround : recvRound env fuel r.recv st with
          | outOfFuel =>
              rw [hround] at h
              cases h
          | panicked ms =>
              rw [hround] at h
              rw [← recvRound_messages env fuel r.recv st (by rw [hround]; exact h)]
              simp
          | ok st' =>
              rw [hround] at h
              dsimp only at h ⊢
              rw [← recvRound_messages env fuel r.recv st (by rw [hround]; rfl)]
              cases hexit : st'.exit with
              | true =>
                  rw [hexit] at h
                  cases h
                  simp
              | false =>
                  simp only [hexit, Bool.false_eq_true, if_false] at h ⊢
                  exact ih st' h

theorem handleTCPPackage_messages (env : Env P) (fuel : Nat) (handshake : Option String)
    (rounds : List Round) {messages : List P}
    (h : (handleTCPPackage env fuel handshake rounds).messages = some messages) :
    messages = delivered env (trace env fuel handshake rounds) := by
  cases handshake with
  | some msg => cases h; rfl
  | none => exact loop_messages env fuel rounds State.init h

/-- The package of a dispatch is there. -/
theorem DecodeRun.dispatch_isSome {env : Env P} {st : State P} {d : Decoded P}
    {events : List Event} (h : DecodeRun env st d events) {k : Nat} {data : Bytes}
    (hmem : .dispatch k data ∈ events) : (env.read k data).pkg.isSome = true := by
  induction h with
  | empty => cases hmem
  | outOfFuel => cases hmem
  | rejected => simp at hmem
  | stalled => simp at hmem
  | negative _ hpkg =>
      simp only [List.mem_cons, reduceCtorEq, Event.dispatch.injEq, List.not_mem_nil, or_false,
        false_or] at hmem
      rw [hmem.1, hmem.2, hpkg]
      rfl
  | package _ hpkg _ _ ih =>
      simp only [List.mem_cons, reduceCtorEq, Event.dispatch.injEq, false_or] at hmem
      rcases hmem with ⟨rfl, rfl⟩ | hlater
      · rw [hpkg]
        rfl
      · exact ih hlater

/-! ## A fixed limit -/

section Limit

variable (L : Int) (read : Nat → Bytes → ReadResult P) (taskOpen : Nat → Bool)

/-- An environment in which the limit never changes. -/
def fixedEnv : Env P := ⟨read, fun _ => L, taskOpen⟩

/-- The result breaks the limit: the `Reader` reports a longer package, or none although
more than `L` bytes are buffered. -/
def Oversized (data : Bytes) (r : ReadResult P) : Prop :=
  L < r.pkgLen ∨ r.pkg = none ∧ L < data.length

/-- An event within the limit, with a buffer of at most `bound` bytes. -/
def Event.Within (bound : Int) : Event → Prop
  | .recv _ => True
  | .read _ data => data.length ≤ bound
  | .dispatch k data => (read k data).pkgLen ≤ L

end Limit

theorem checkPackage_eq_none {L : Int} {r : ReadResult P} {n : Nat} (hL : 0 < L)
    (h : checkPackage L r n = none) : r.pkgLen ≤ L ∧ (r.pkg = none → (n : Int) ≤ L) := by
  unfold checkPackage at h
  cases herr : r.err with
  | some msg => simp [herr] at h
  | none =>
      simp only [herr, if_pos hL] at h
      split at h
      · cases h
      · split at h
        · cases h
        · next hlen hstall =>
            refine ⟨Int.not_lt.mp hlen, fun hpkg => Int.not_lt.mp fun hlt => hstall ?_⟩
            exact ⟨by rw [hpkg]; rfl, hlt⟩

section Limit

variable {L : Int} {read : Nat → Bytes → ReadResult P} {taskOpen : Nat → Bool}
  {st : State P} {d : Decoded P} {events : List Event}

/-- **Step lemma.**  A decode loop stays within the limit, and leaves at most `L` bytes
when the outer loop goes on. -/
theorem DecodeRun.within (hL : 0 < L) (h : DecodeRun (fixedEnv L read taskOpen) st d events)
    {bound : Int} (hbound : st.pktBuf.length ≤ bound) :
    (∀ e ∈ events, e.Within L read bound) ∧
      ∀ st', d = .ok st' → st'.exit = true ∨ (st'.pktBuf.length : Int) ≤ L := by
  induction h with
  | @empty st hnil =>
      refine ⟨by simp, fun st' hst => Or.inr ?_⟩
      cases hst
      rw [hnil]
      exact Int.le_of_lt hL
  | outOfFuel => exact ⟨by simp, by simp⟩
  | rejected hcheck =>
      refine ⟨fun e he => ?_, fun st' hst => Or.inl ?_⟩
      · obtain rfl := List.mem_singleton.mp he
        exact hbound
      · cases hst
        rfl
  | stalled hcheck hpkg =>
      refine ⟨fun e he => ?_, fun st' hst => Or.inr ?_⟩
      · obtain rfl := List.mem_singleton.mp he
        exact hbound
      · cases hst
        exact (checkPackage_eq_none hL hcheck).2 hpkg
  | negative hcheck hpkg =>
      refine ⟨?_, by simp⟩
      simp only [List.forall_mem_cons, List.not_mem_nil, false_imp_iff, implies_true, and_true]
      exact ⟨hbound, (checkPackage_eq_none hL hcheck).1⟩
  | package hcheck hpkg hrest hrun ih =>
      obtain ⟨hevents, hend⟩ := ih (Int.le_trans (Int.ofNat_le.mpr hrest) hbound)
      refine ⟨?_, hend⟩
      simp only [List.forall_mem_cons]
      exact ⟨hbound, (checkPackage_eq_none hL hcheck).1, hevents⟩

/-- **Step lemma.**  An oversized result is the last event of its decode loop, which then
asks the outer loop to return an error. -/
theorem DecodeRun.oversized (hL : 0 < L) (h : DecodeRun (fixedEnv L read taskOpen) st d events)
    {k : Nat} {data : Bytes} (hmem : .read k data ∈ events)
    (hover : Oversized L data (read k data)) :
    (∃ pre, events = pre ++ [.read k data]) ∧
      ∃ st' e, d = .ok st' ∧ st'.exit = true ∧ st'.err = some e := by
  have hpasses : ∀ {k' : Nat} {buf : Bytes}, checkPackage L (read k' buf) buf.length = none →
      ¬ Oversized L buf (read k' buf) := by
    intro k' buf hcheck hov
    obtain ⟨hlen, hstall⟩ := checkPackage_eq_none hL hcheck
    rcases hov with hlong | ⟨hpkg, hlong⟩
    · omega
    · have := hstall hpkg
      omega
  induction h with
  | empty => cases hmem
  | outOfFuel => cases hmem
  | @rejected st e hcheck =>
      obtain ⟨rfl, rfl⟩ := Event.read.inj (List.mem_singleton.mp hmem)
      exact ⟨⟨[], rfl⟩, _, e, rfl, rfl, rfl⟩
  | stalled hcheck hpkg =>
      obtain ⟨rfl, rfl⟩ := Event.read.inj (List.mem_singleton.mp hmem)
      exact absurd hover (hpasses hcheck)
  | negative hcheck hpkg =>
      simp only [List.mem_cons, Event.read.injEq, reduceCtorEq, List.not_mem_nil, or_false] at hmem
      obtain ⟨rfl, rfl⟩ := hmem
      exact absurd hover (hpasses hcheck)
  | package hcheck hpkg hrest hrun ih =>
      simp only [List.mem_cons, Event.read.injEq, reduceCtorEq, false_or] at hmem
      rcases hmem with ⟨rfl, rfl⟩ | hlater
      · exact absurd hover (hpasses hcheck)
      · obtain ⟨⟨pre, hpre⟩, hend⟩ := ih hlater
        exact ⟨⟨.read _ _ :: .dispatch _ _ :: pre, by rw [hpre]; rfl⟩, hend⟩

variable (read taskOpen) in
/-- One round from a buffer of at most `L` bytes. -/
private theorem recvRound_within (hL : 0 < L) (fuel : Nat) (rc : RecvResult)
    (hrecv : rc.data.length ≤ maxReadBufLen) (hbuf : (st.pktBuf.length : Int) ≤ L) :
    (∀ e ∈ recvEvents (fixedEnv L read taskOpen) fuel rc st,
        e.Within L read (L + maxReadBufLen)) ∧
      ∀ st', recvRound (fixedEnv L read taskOpen) fuel rc st = .ok st' →
        st'.exit = true ∨ (st'.pktBuf.length : Int) ≤ L := by
  by_cases hnil : rc.data = []
  · rw [recvEvents, recvRound, if_pos hnil, if_pos hnil]
    refine ⟨fun e he => ?_, fun st' hst => Or.inr ?_⟩
    · obtain rfl := List.mem_singleton.mp he
      exact True.intro
    · cases hst
      rw [afterRecv_pktBuf]
      exact hbuf
  · obtain ⟨events, hevents, hrun⟩ := recvRound_run (fixedEnv L read taskOpen) fuel st hnil
    have hlen : (((st.afterRecv rc.err).buffer rc.data).pktBuf.length : Int) ≤
        L + maxReadBufLen := by
      rw [buffer_pktBuf, afterRecv_pktBuf, List.length_append]
      omega
    obtain ⟨hwithin, hend⟩ := hrun.within hL hlen
    refine ⟨?_, hend⟩
    rw [hevents, List.forall_mem_cons]
    exact ⟨True.intro, hwithin⟩

/-- **Run lemma.**  Everything a run does is within the limit. -/
theorem loop_within (hL : 0 < L) (fuel : Nat) (rs : List Round)
    (hrecv : ∀ r ∈ rs, r.recv.data.length ≤ maxReadBufLen)
    (hbuf : (st.pktBuf.length : Int) ≤ L) :
    ∀ e ∈ loopEvents (fixedEnv L read taskOpen) fuel rs st,
      e.Within L read (L + maxReadBufLen) := by
  induction rs generalizing st with
  | nil => simp [loopEvents]
  | cons r rs ih =>
      obtain ⟨hr, hrs⟩ := List.forall_mem_cons.mp hrecv
      obtain ⟨hwithin, hend⟩ := recvRound_within read taskOpen hL fuel r.recv hr hbuf
      simp only [loopEvents]
      split
      · simp
      · rw [List.forall_mem_append]
        refine ⟨hwithin, ?_⟩
        cases hround : recvRound (fixedEnv L read taskOpen) fuel r.recv st with
        | outOfFuel => simp
        | panicked ms => simp
        | ok st' =>
            dsimp only
            rcases hend st' hround with hexit | hlen
            · simp [hexit]
            · split
              · simp
              · exact ih hrs hlen

/-- **Run lemma.**  An oversized result is the last event of the run, which returns an
error. -/
theorem loop_oversized (hL : 0 < L) (fuel : Nat) (rs : List Round) {k : Nat} {data : Bytes}
    (hmem : .read k data ∈ loopEvents (fixedEnv L read taskOpen) fuel rs st)
    (hover : Oversized L data (read k data)) :
    (∃ pre, loopEvents (fixedEnv L read taskOpen) fuel rs st = pre ++ [.read k data]) ∧
      ∃ e messages, loop (fixedEnv L read taskOpen) fuel rs st = .returned (some e) messages := by
  induction rs generalizing st with
  | nil => cases hmem
  | cons r rs ih =>
      simp only [loopEvents, loop] at hmem ⊢
      cases hclosed : r.closed with
      | true =>
          rw [hclosed] at hmem
          cases hmem
      | false =>
          simp only [hclosed, Bool.false_eq_true, if_false] at hmem ⊢
          rcases List.mem_append.mp hmem with hhere | hlater
          · have hne : r.recv.data ≠ [] := by
              intro hnil
              rw [recvEvents, if_pos hnil] at hhere
              simp at hhere
            obtain ⟨events, hevents, hrun⟩ :=
              recvRound_run (fixedEnv L read taskOpen) fuel st hne
            rw [hevents] at hhere ⊢
            obtain ⟨⟨pre, hpre⟩, st', e, hend, hexit, herr⟩ :=
              hrun.oversized hL (by simpa using hhere) hover
            rw [hend]
            simp only [hexit, if_true, herr, List.append_nil]
            exact ⟨⟨.recv r.recv.data :: pre, by rw [hpre]; rfl⟩, e, st'.messages, rfl⟩
          · cases hround : recvRound (fixedEnv L read taskOpen) fuel r.recv st with
            | outOfFuel =>
                rw [hround] at hlater
                cases hlater
            | panicked ms =>
                rw [hround] at hlater
                cases hlater
            | ok st' =>
                rw [hround] at hlater
                dsimp only at hlater ⊢
                cases hexit : st'.exit with
                | true =>
                    rw [hexit] at hlater
                    cases hlater
                | false =>
                    simp only [hexit, Bool.false_eq_true, if_false] at hlater ⊢
                    obtain ⟨⟨pre, hpre⟩, hreturned⟩ := ih hlater
                    exact ⟨⟨recvEvents _ fuel r.recv st ++ pre, by rw [hpre, List.append_assoc]⟩,
                      hreturned⟩

end Limit

/-- **The limits of the TCP loop hold for every `Reader`.**  With a fixed limit `L` no
`Reader` call gets more than `L + 4096` bytes, no package is dispatched that the `Reader`
reports to be longer than `L`, and a result that is too long, or a missing package with
more than `L` bytes buffered, is the last thing that happens before the loop returns an
error.  What the listener gets are the dispatched packages. -/
theorem tcp_limits_hold (L : Int) (read : Nat → Bytes → ReadResult P) (taskOpen : Nat → Bool)
    (fuel : Nat) (handshake : Option String) (rounds : List Round) (hL : 0 < L)
    (hrecv : ∀ r ∈ rounds, r.recv.data.length ≤ maxReadBufLen) :
    (∀ k data, .read k data ∈ trace (fixedEnv L read taskOpen) fuel handshake rounds →
      (data.length : Int) ≤ L + maxReadBufLen) ∧
    (∀ k data, .dispatch k data ∈ trace (fixedEnv L read taskOpen) fuel handshake rounds →
      (read k data).pkgLen ≤ L) ∧
    (∀ k data, .read k data ∈ trace (fixedEnv L read taskOpen) fuel handshake rounds →
      Oversized L data (read k data) →
      (∃ pre, trace (fixedEnv L read taskOpen) fuel handshake rounds = pre ++ [.read k data]) ∧
        ∃ e messages, handleTCPPackage (fixedEnv L read taskOpen) fuel handshake rounds =
          .returned (some e) messages) ∧
    ∀ messages,
      (handleTCPPackage (fixedEnv L read taskOpen) fuel handshake rounds).messages =
        some messages →
      messages = delivered (fixedEnv L read taskOpen)
        (trace (fixedEnv L read taskOpen) fuel handshake rounds) := by
  have hwithin : ∀ e ∈ trace (fixedEnv L read taskOpen) fuel handshake rounds,
      e.Within L read (L + maxReadBufLen) := by
    cases handshake with
    | some msg => simp [trace]
    | none => exact loop_within hL fuel rounds hrecv (Int.le_of_lt hL)
  refine ⟨fun k data h => hwithin _ h, fun k data h => hwithin _ h, ?_, fun messages h => ?_⟩
  · intro k data hmem hover
    cases handshake with
    | some msg => cases hmem
    | none => exact loop_oversized hL fuel rounds hmem hover
  · exact handleTCPPackage_messages _ fuel handshake rounds h

/-- A `Reader` that never has a package, with a limit of two bytes: the third byte ends
the loop. -/
theorem tcp_limits_hold_stalled :
    handleTCPPackage (fixedEnv 2 (fun _ _ => (⟨none, 0, none⟩ : ReadResult Unit)) fun _ => true)
        1 none [⟨false, ⟨[1, 1], none⟩⟩, ⟨false, ⟨[1], none⟩⟩, ⟨false, ⟨[1], none⟩⟩] =
      .returned (some (.incompleteAbove 3 2)) [] ∧
    ∃ pre, trace (fixedEnv 2 (fun _ _ => (⟨none, 0, none⟩ : ReadResult Unit)) fun _ => true)
        1 none [⟨false, ⟨[1, 1], none⟩⟩, ⟨false, ⟨[1], none⟩⟩, ⟨false, ⟨[1], none⟩⟩] =
      pre ++ [.read 1 [1, 1, 1]] := by
  refine ⟨rfl, ?_⟩
  have h := tcp_limits_hold 2 (fun _ _ => (⟨none, 0, none⟩ : ReadResult Unit)) (fun _ => true)
    1 none [⟨false, ⟨[1, 1], none⟩⟩, ⟨false, ⟨[1], none⟩⟩, ⟨false, ⟨[1], none⟩⟩]
    (by decide) (by decide)
  exact (h.2.2.1 1 [1, 1, 1] (by decide) (Or.inr ⟨rfl, by decide⟩)).1

end Getty.Transport.Tcp
