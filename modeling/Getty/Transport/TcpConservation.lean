import Getty.Transport.TcpReadLoop

/-!
# Where the received bytes go

`handleTCPPackage` with any `Reader` at all.  The loop would call the `Reader` forever on
the same data if it got a package of length zero, and would panic on a negative length; a
`Reader` that reports a positive length with every package excludes both, and nothing else
is needed of it.  It may be stateful, may fail, may report more bytes than there are, and
may see data from a peer that follows no protocol.

Then every byte that is received goes to one place.  The bytes of the decoded packages, in
the order of their decoding, followed by what is left in `pktBuf`, are the bytes that have
arrived.

## Main results

* `decode_conserves` — one decode loop cuts packages off the front of the buffer.
* `loop_conserves` — so does the receive loop, from the stream.
* `receive_loop_conserves` — every byte is used once, and the loop never hangs or panics.
-/

namespace Getty.Transport.Tcp

variable {P : Type}

/-- A decoded package: the number of the `Reader` call, the data it was given, the package
and the length it returned. -/
structure Piece (P : Type) where
  call : Nat
  data : Bytes
  pkg : P
  pkgLen : Int

/-- The bytes that `pktBuf.Next` takes for a package. -/
def Piece.bytes (x : Piece P) : Bytes := x.data.take x.pkgLen.toNat

/-- The `Reader` has returned the package, and no limit was broken. -/
structure Piece.Decoded (env : Env P) (x : Piece P) : Prop where
  answer : env.read x.call x.data = ⟨some x.pkg, x.pkgLen, none⟩
  legal : checkPackage (env.maxMsgLen x.call) (env.read x.call x.data) x.data.length = none
  nonempty : x.bytes ≠ []

def cutOff (pieces : List (Piece P)) : Bytes := pieces.flatMap Piece.bytes

/-- The packages that `addTask` hands to `OnMessage`. -/
def dispatched (env : Env P) (pieces : List (Piece P)) : List P :=
  (pieces.filter fun x => env.taskOpen x.call).map Piece.pkg

@[simp] theorem cutOff_append (xs ys : List (Piece P)) :
    cutOff (xs ++ ys) = cutOff xs ++ cutOff ys := by
  simp [cutOff]

@[simp] theorem dispatched_append (env : Env P) (xs ys : List (Piece P)) :
    dispatched env (xs ++ ys) = dispatched env xs ++ dispatched env ys := by
  simp [dispatched]

private theorem dispatched_singleton (env : Env P) (x : Piece P) (messages : List P) :
    addTask (env.taskOpen x.call) x.pkg messages = messages ++ dispatched env [x] := by
  cases h : env.taskOpen x.call <;> simp [addTask, dispatched, h]

/-- Every package comes with a positive length. -/
def Env.Advances (env : Env P) : Prop :=
  ∀ k data, (env.read k data).pkg.isSome = true → (env.read k data).err = none →
    0 < (env.read k data).pkgLen

/-- From `st` to `st'` the packages `pieces` were cut off the front of the buffer. -/
structure Cuts (env : Env P) (st : State P) (pieces : List (Piece P)) (st' : State P) : Prop where
  bytes : st.pktBuf = cutOff pieces ++ st'.pktBuf
  messages : st'.messages = st.messages ++ dispatched env pieces
  decoded : ∀ x ∈ pieces, x.Decoded env
  reads : st'.reads ≤ st.reads + pieces.length + 1

private theorem check_err_none {maxMsgLen : Int} {r : ReadResult P} {n : Nat}
    (h : checkPackage maxMsgLen r n = none) : r.err = none := by
  cases hr : r.err with
  | none => rfl
  | some msg => simp [checkPackage, hr] at h

section Conservation

variable {env : Env P}

/-- **One decode loop** cuts packages off the front of the buffer. -/
theorem decode_conserves (hadv : env.Advances) (fuel : Nat) (st : State P)
    (hfuel : st.pktBuf.length ≤ fuel) :
    ∃ pieces st', decode env fuel st = .ok st' ∧ Cuts env st pieces st' := by
  induction fuel generalizing st with
  | zero =>
      have hnil : st.pktBuf = [] := List.eq_nil_of_length_eq_zero (by omega)
      exact ⟨[], st, decode_nil env 0 st hnil,
        ⟨rfl, by simp [dispatched], List.forall_mem_nil _, by omega⟩⟩
  | succ fuel ih =>
      by_cases hnil : st.pktBuf = []
      · exact ⟨[], st, decode_nil env _ st hnil,
          ⟨rfl, by simp [dispatched], List.forall_mem_nil _, by omega⟩⟩
      · rw [decode, if_neg hnil]
        dsimp only
        cases hc : checkPackage (env.maxMsgLen st.reads) (env.read st.reads st.pktBuf)
            st.pktBuf.length with
        | some e =>
            exact ⟨[], _, rfl, ⟨rfl, by simp [dispatched], List.forall_mem_nil _, by simp⟩⟩
        | none =>
            have herr := check_err_none hc
            cases hp : (env.read st.reads st.pktBuf).pkg with
            | none =>
                exact ⟨[], _, rfl, ⟨rfl, by simp [dispatched], List.forall_mem_nil _, by simp⟩⟩
            | some pkg =>
                have hpos := hadv st.reads st.pktBuf (by rw [hp]; rfl) herr
                -- the bytes of this package, and the data behind them
                obtain ⟨x, hx⟩ : ∃ x : Piece P, x = ⟨st.reads, st.pktBuf, pkg,
                  (env.read st.reads st.pktBuf).pkgLen⟩ := ⟨_, rfl⟩
                have hbytes : x.bytes =
                    st.pktBuf.take (env.read st.reads st.pktBuf).pkgLen.toNat := by rw [hx]; rfl
                have hne : x.bytes ≠ [] := by
                  rw [hbytes]
                  simp only [ne_eq, List.take_eq_nil_iff, not_or]
                  exact ⟨by omega, hnil⟩
                have hdecoded : x.Decoded env := by
                  refine ⟨?_, by rw [hx]; exact hc, hne⟩
                  rw [hx]
                  dsimp only
                  rw [← hp, ← herr]
                have hsplit : st.pktBuf =
                    x.bytes ++ st.pktBuf.drop (env.read st.reads st.pktBuf).pkgLen.toNat := by
                  rw [hbytes, List.take_append_drop]
                have hlen := congrArg List.length hsplit
                have hxlen := List.length_pos_iff.mpr hne
                rw [List.length_append] at hlen
                simp only [next, if_neg (Int.not_lt.mpr (Int.le_of_lt hpos))]
                obtain ⟨pieces, st', hdec, hcuts⟩ := ih
                  { st with
                    err := none
                    pktBuf := st.pktBuf.drop (env.read st.reads st.pktBuf).pkgLen.toNat
                    reads := st.reads + 1
                    messages := addTask (env.taskOpen st.reads) pkg st.messages }
                  (by dsimp only; omega)
                have htask := dispatched_singleton env x st.messages
                rw [hx] at htask
                dsimp only at htask
                refine ⟨x :: pieces, st', hdec, ⟨?_, ?_, ?_, ?_⟩⟩
                · have := hcuts.bytes
                  dsimp only at this
                  rw [hsplit, this]
                  simp [cutOff]
                · have := hcuts.messages
                  dsimp only at this
                  rw [this, htask, ← hx, List.append_assoc, ← dispatched_append]
                  rfl
                · intro y hy
                  rcases List.mem_cons.mp hy with rfl | hy
                  · exact hdecoded
                  · exact hcuts.decoded y hy
                · have := hcuts.reads
                  dsimp only at this
                  rw [List.length_cons]
                  omega

/-- The bytes that the rounds bring. -/
def received (rounds : List Round) : Bytes := rounds.flatMap fun r => r.recv.data

/-- The stream received so far is the packages that were cut off and the rest in `pktBuf`. -/
structure Conserved (env : Env P) (rounds : Nat) (s : Bytes) (pieces : List (Piece P))
    (st : State P) : Prop where
  bytes : s = cutOff pieces ++ st.pktBuf
  messages : st.messages = dispatched env pieces
  decoded : ∀ x ∈ pieces, x.Decoded env
  reads : st.reads ≤ pieces.length + rounds

/-- **Step lemma.**  One round after the `IsClosed` test. -/
theorem recvRound_conserves (hadv : env.Advances) {n fuel : Nat} {s : Bytes}
    {pieces : List (Piece P)} {st : State P} (hst : Conserved env n s pieces st) (rc : RecvResult)
    (hfuel : s.length + rc.data.length ≤ fuel) :
    ∃ more st', recvRound env fuel rc st = .ok st' ∧
      Conserved env (n + 1) (s ++ rc.data) (pieces ++ more) st' := by
  have hbytes := hst.bytes
  have hreads := hst.reads
  by_cases hd : rc.data = []
  · refine ⟨[], st.afterRecv rc.err, by rw [recvRound, if_pos hd], ⟨?_, ?_, ?_, ?_⟩⟩
    · rw [hd, List.append_nil, List.append_nil, afterRecv_pktBuf, hbytes]
    · rw [List.append_nil, afterRecv_messages, hst.messages]
    · rw [List.append_nil]
      exact hst.decoded
    · rw [List.append_nil, afterRecv_reads]
      omega
  · have hlen : st.pktBuf.length ≤ s.length := by
      rw [hbytes, List.length_append]
      omega
    obtain ⟨more, st', hdec, hcuts⟩ := decode_conserves hadv fuel
      ((st.afterRecv rc.err).buffer rc.data) (by simp; omega)
    have hcut := hcuts.bytes
    have hmsg := hcuts.messages
    have hcalls := hcuts.reads
    simp only [buffer_pktBuf, afterRecv_pktBuf, buffer_messages, afterRecv_messages,
      buffer_reads, afterRecv_reads] at hcut hmsg hcalls
    refine ⟨more, st', by rw [recvRound, if_neg hd]; exact hdec, ⟨?_, ?_, ?_, ?_⟩⟩
    · rw [hbytes, List.append_assoc, hcut, cutOff_append, List.append_assoc]
    · rw [hmsg, hst.messages, dispatched_append]
    · intro x hx
      rcases List.mem_append.mp hx with hx | hx
      · exact hst.decoded x hx
      · exact hcuts.decoded x hx
    · rw [List.length_append]
      omega

/-- A run of the loop from `st`: after `k` rounds it is in the state `last`, and its outcome
is `o`. -/
inductive Ends (env : Env P) (fuel : Nat) :
    List Round → State P → (k : Nat) → (last : State P) → Outcome P → Prop where
  /-- It has used all the rounds and wants another one. -/
  | blocked (st : State P) : Ends env fuel [] st 0 st (.blocked st)
  /-- `IsClosed` ends it before it uses the next round. -/
  | closed {r : Round} {rs : List Round} {st : State P} (hclosed : r.closed = true) :
      Ends env fuel (r :: rs) st 0 st (.returned none st.messages)
  /-- A round sets `exit`. -/
  | exit {r : Round} {rs : List Round} {st st' : State P} (hopen : r.closed = false)
      (hround : recvRound env fuel r.recv st = .ok st') (hexit : st'.exit = true) :
      Ends env fuel (r :: rs) st 1 st' (.returned st'.err st'.messages)
  | more {r : Round} {rs : List Round} {st st' last : State P} {k : Nat} {o : Outcome P}
      (hopen : r.closed = false) (hround : recvRound env fuel r.recv st = .ok st')
      (hexit : st'.exit = false) (h : Ends env fuel rs st' k last o) :
      Ends env fuel (r :: rs) st (k + 1) last o

/-- The outcome is the loop's. -/
theorem Ends.loop_eq {fuel k : Nat} {rounds : List Round} {st last : State P} {o : Outcome P}
    (h : Ends env fuel rounds st k last o) : loop env fuel rounds st = o := by
  induction h with
  | blocked st => rfl
  | closed hclosed => simp only [loop, hclosed, if_true]
  | exit hopen hround hexit =>
      simp only [loop, hopen, hround, hexit, Bool.false_eq_true, if_false, if_true]
  | more hopen hround hexit h ih =>
      simp only [loop, hopen, hround, hexit, Bool.false_eq_true, if_false]
      exact ih

theorem Ends.le {fuel k : Nat} {rounds : List Round} {st last : State P} {o : Outcome P}
    (h : Ends env fuel rounds st k last o) : k ≤ rounds.length := by
  induction h with
  | blocked | closed => exact Nat.zero_le _
  | exit => exact Nat.succ_le_succ (Nat.zero_le _)
  | more hopen hround hexit h ih => exact Nat.succ_le_succ ih

/-- **Run lemma.** -/
theorem loop_conserves (hadv : env.Advances) (fuel : Nat) (rounds : List Round) (n : Nat)
    (s : Bytes) (pieces : List (Piece P)) (st : State P) (hst : Conserved env n s pieces st)
    (hfuel : s.length + (received rounds).length ≤ fuel) :
    ∃ k last more o, Ends env fuel rounds st k last o ∧
      Conserved env (n + k) (s ++ received (rounds.take k)) (pieces ++ more) last := by
  induction rounds generalizing n s pieces st with
  | nil => exact ⟨0, st, [], _, .blocked st, by simpa [received] using hst⟩
  | cons r rs ih =>
      cases hclosed : r.closed with
      | true => exact ⟨0, st, [], _, .closed hclosed, by simpa [received] using hst⟩
      | false =>
          simp only [received, List.flatMap_cons, List.length_append] at hfuel
          have hround : s.length + r.recv.data.length ≤ fuel := by omega
          obtain ⟨more, st', hround, hst'⟩ := recvRound_conserves hadv hst r.recv hround
          cases hexit : st'.exit with
          | true =>
              exact ⟨1, st', more, _, .exit hclosed hround hexit, by simpa [received] using hst'⟩
          | false =>
              obtain ⟨k, last, more', o, hends, hlast⟩ := ih (n + 1) (s ++ r.recv.data)
                (pieces ++ more) st' hst' (by rw [List.length_append]; simp only [received]; omega)
              refine ⟨k + 1, last, more ++ more', o, .more hclosed hround hexit hends, ?_⟩
              have hcount : n + (k + 1) = n + 1 + k := by omega
              rw [hcount, ← List.append_assoc pieces]
              simpa [received] using hlast

/-- The same from the start of `handleTCPPackage`. -/
theorem handleTCPPackage_conserves (hadv : env.Advances) (fuel : Nat) (rounds : List Round)
    (hfuel : (received rounds).length ≤ fuel) :
    ∃ k last pieces,
      Ends env fuel rounds .init k last (handleTCPPackage env fuel none rounds) ∧
      Conserved env k (received (rounds.take k)) pieces last := by
  obtain ⟨k, last, pieces, o, hends, hlast⟩ := loop_conserves hadv fuel rounds 0 [] [] State.init
    ⟨rfl, rfl, List.forall_mem_nil _, Nat.zero_le _⟩ (by simpa using hfuel)
  refine ⟨k, last, pieces, ?_, by simpa using hlast⟩
  rw [handleTCPPackage, hends.loop_eq]
  exact hends

/-- **Every byte is used once.**  With any `Reader` that reports a positive length with
every package, and any results of `recv` and `IsClosed`, `handleTCPPackage` neither hangs
in a decode loop nor panics: it returns, or it has used all the rounds.  Let `k` be the
number of rounds it has used and `last` the state it is in then.  The bytes of these `k`
rounds are the bytes of the packages it has decoded, in this order, followed by what is left
in `pktBuf`; the packages it has handed to `OnMessage` are those that were decoded while the
session was open; and it has called the `Reader` at most once for each package and once for
each of these rounds. -/
theorem receive_loop_conserves (env : Env P) (hadv : env.Advances) (rounds : List Round)
    (fuel : Nat) (hfuel : (received rounds).length ≤ fuel) :
    ∃ k last pieces, k ≤ rounds.length ∧
      Ends env fuel rounds .init k last (handleTCPPackage env fuel none rounds) ∧
      received (rounds.take k) = cutOff pieces ++ last.pktBuf ∧
      last.messages = dispatched env pieces ∧ (∀ x ∈ pieces, x.Decoded env) ∧
      last.reads ≤ pieces.length + k := by
  obtain ⟨k, last, pieces, hends, hlast⟩ := handleTCPPackage_conserves hadv fuel rounds hfuel
  exact ⟨k, last, pieces, hends.le, hends, hlast.bytes, hlast.messages, hlast.decoded,
    hlast.reads⟩

end Conservation

/-- A `Reader` that takes two bytes at a time, or one if there are no more. -/
def pairEnv : Env Bytes where
  read _ data := ⟨some (data.take 2), 2, none⟩
  maxMsgLen _ := 0
  taskOpen k := decide (k < 2)

/-- Five bytes in two reads, on a session that is closed for `addTask` after two packages. -/
theorem receive_loop_conserves_pairs :
    ∃ k last pieces, k ≤ 2 ∧
      Ends pairEnv 5 [⟨false, [1, 2, 3], none⟩, ⟨false, [4, 5], none⟩] .init k last
        (handleTCPPackage pairEnv 5 none [⟨false, [1, 2, 3], none⟩, ⟨false, [4, 5], none⟩]) ∧
      received (List.take k [⟨false, [1, 2, 3], none⟩, ⟨false, [4, 5], none⟩]) =
        cutOff pieces ++ last.pktBuf ∧
      last.messages = dispatched pairEnv pieces ∧ (∀ x ∈ pieces, x.Decoded pairEnv) ∧
      last.reads ≤ pieces.length + k :=
  receive_loop_conserves pairEnv (fun _ _ _ _ => show (0 : Int) < 2 by decide)
    [⟨false, [1, 2, 3], none⟩, ⟨false, [4, 5], none⟩] 5 (by decide)

end Getty.Transport.Tcp
