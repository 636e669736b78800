import Getty.Transport.Basic

/-!
# The TCP receive loop

`handleTCPPackage` reads the socket into `pktBuf`, hands the buffer to the
application's `Reader` as long as it yields packages, and keeps the unconsumed
bytes for the next read.  Two variables decide how it ends: `exit`, set by the
socket and by the decoder, and `err`, which the two *share*.

Whatever the loop cannot know is a parameter.  `Env` gives the `Reader`'s
answer and the size limit for every `Reader` call by its number, so that a
stateful `Reader` and a concurrent `SetMaxMsgLen` are covered; a `Round` is one
turn of the outer loop, with what `IsClosed` and `recv` return there.

## Main results

* `loop_append` — a run over more rounds is the run so far, continued.
* `decode_isSome_iff` — when the decode loop ends in an error.
* `fatal_recv_reported_iff` — when a fatal receive error is reported.
-/

namespace Getty.Transport.Tcp

variable {P : Type}

/-- What the decode loop meets at its `k`-th `Reader` call: the `Reader`'s
answer, `s.maxMsgLen` read after it, and whether `addTask` then finds the
session open with a listener. -/
structure Env (P : Type) where
  read : Nat → Bytes → ReadResult P
  maxMsgLen : Nat → Int
  taskOpen : Nat → Bool

/-- The variables of `handleTCPPackage`, the number of `Reader` calls made, and
the packages that reached `OnMessage`. -/
structure State (P : Type) where
  err : Option LoopErr
  exit : Bool
  pktBuf : Bytes
  reads : Nat
  messages : List P

def State.init : State P := ⟨none, false, [], 0, []⟩

/-- One turn of the outer loop: what `IsClosed` and `recv` answer. -/
structure Round where
  closed : Bool
  recv : RecvResult

/-- How far a run of the loop got. -/
inductive Outcome (P : Type) where
  /-- The loop returned. -/
  | returned (err : Option LoopErr) (messages : List P)
  /-- `pktBuf.Next` was given a negative length. -/
  | panicked (messages : List P)
  /-- All rounds are used up and the loop wants another one. -/
  | blocked (st : State P)
  /-- The fuel of a decode loop is used up. -/
  | decoding

/-! ## The decode loop -/

/-- `err` after one `Reader` call and the two size checks that follow it. -/
def checkPackage (maxMsgLen : Int) (r : ReadResult P) (bufLen : Nat) : Option LoopErr :=
  match r.err with
  | some msg => some (.reader msg)
  | none =>
      if 0 < maxMsgLen then
        if maxMsgLen < r.pkgLen then some (.pkgLenAbove r.pkgLen maxMsgLen)
        else if r.pkg.isNone ∧ maxMsgLen < bufLen then some (.incompleteAbove bufLen maxMsgLen)
        else none
      else none

/-- `pktBuf.Next(n)`: drops `n` bytes, or all of them when there are fewer.  A
negative length is a slice expression out of range. -/
def next (n : Int) (buf : Bytes) : Option Bytes :=
  if n < 0 then none else some (buf.drop n.toNat)

/-- How a decode loop ends. -/
inductive Decoded (P : Type) where
  | ok (st : State P)
  | panicked (messages : List P)
  | outOfFuel

/-- `for pktBuf.Len() > 0 { ... }`. -/
def decode (env : Env P) : Nat → State P → Decoded P
  | fuel, st =>
      if st.pktBuf = [] then .ok st
      else
        match fuel with
        | 0 => .outOfFuel
        | fuel + 1 =>
            let r := env.read st.reads st.pktBuf
            match checkPackage (env.maxMsgLen st.reads) r st.pktBuf.length with
            | some e => .ok { st with err := some e, exit := true, reads := st.reads + 1 }
            | none =>
                match r.pkg with
                | none => .ok { st with err := none, reads := st.reads + 1 }
                | some pkg =>
                    let messages := addTask (env.taskOpen st.reads) pkg st.messages
                    match next r.pkgLen st.pktBuf with
                    | none => .panicked messages
                    | some rest =>
                        decode env fuel
                          { st with
                            err := none, pktBuf := rest, reads := st.reads + 1
                            messages := messages }

/-! ## The read loop -/

/-- `err` and `exit` after `recv`: a timeout is kept in `err` and retried, EOF
clears `err` and ends the loop after this round, any other error stays in `err`
and ends it too. -/
def State.afterRecv (st : State P) : Option RecvErr → State P
  | none => { st with err := none }
  | some .timeout => { st with err := some (.recv .timeout) }
  | some .eof => { st with err := none, exit := true }
  | some (.other msg) => { st with err := some (.recv (.other msg)), exit := true }

/-- `pktBuf.WriteNextEnd`: the received bytes join the buffer. -/
def State.buffer (st : State P) (data : Bytes) : State P :=
  { st with pktBuf := st.pktBuf ++ data }

/-- One turn of the outer loop after the `IsClosed` test. -/
def recvRound (env : Env P) (fuel : Nat) (rc : RecvResult) (st : State P) : Decoded P :=
  if rc.data = [] then .ok (st.afterRecv rc.err)
  else decode env fuel ((st.afterRecv rc.err).buffer rc.data)

/-- The outer `for`. -/
def loop (env : Env P) (fuel : Nat) : List Round → State P → Outcome P
  | [], st => .blocked st
  | r :: rs, st =>
      if r.closed then .returned none st.messages
      else
        match recvRound env fuel r.recv st with
        | .ok st' => if st'.exit then .returned st'.err st'.messages else loop env fuel rs st'
        | .panicked messages => .panicked messages
        | .outOfFuel => .decoding

/-- `handleTCPPackage`; `handshake` is the error of the TLS handshake, `none`
when it succeeds and on a connection without TLS. -/
def handleTCPPackage (env : Env P) (fuel : Nat) (handshake : Option String)
    (rounds : List Round) : Outcome P :=
  match handshake with
  | some msg => .returned (some (.handshake msg)) []
  | none => loop env fuel rounds State.init

@[simp] theorem afterRecv_pktBuf (st : State P) (e : Option RecvErr) :
    (st.afterRecv e).pktBuf = st.pktBuf := by
  unfold State.afterRecv
  split <;> rfl

@[simp] theorem afterRecv_reads (st : State P) (e : Option RecvErr) :
    (st.afterRecv e).reads = st.reads := by
  unfold State.afterRecv
  split <;> rfl

@[simp] theorem afterRecv_messages (st : State P) (e : Option RecvErr) :
    (st.afterRecv e).messages = st.messages := by
  unfold State.afterRecv
  split <;> rfl

@[simp] theorem buffer_pktBuf (st : State P) (data : Bytes) :
    (st.buffer data).pktBuf = st.pktBuf ++ data := rfl

@[simp] theorem buffer_reads (st : State P) (data : Bytes) :
    (st.buffer data).reads = st.reads := rfl

@[simp] theorem buffer_exit (st : State P) (data : Bytes) :
    (st.buffer data).exit = st.exit := rfl

@[simp] theorem buffer_messages (st : State P) (data : Bytes) :
    (st.buffer data).messages = st.messages := rfl

/-! ## Fuel -/

theorem decode_nil (env : Env P) (fuel : Nat) (st : State P) (h : st.pktBuf = []) :
    decode env fuel st = .ok st := by
  unfold decode
  simp [h]

theorem decode_zero (env : Env P) (st : State P) (h : st.pktBuf ≠ []) :
    decode env 0 st = .outOfFuel := by
  unfold decode
  simp [h]

/-- More fuel does not change how a decode loop ends. -/
theorem decode_fuel_mono (env : Env P) {fuel fuel' : Nat} (hle : fuel ≤ fuel') (st : State P)
    (h : decode env fuel st ≠ .outOfFuel) : decode env fuel' st = decode env fuel st := by
  induction fuel generalizing fuel' st with
  | zero =>
      by_cases hnil : st.pktBuf = []
      · rw [decode_nil env _ st hnil, decode_nil env _ st hnil]
      · exact absurd (decode_zero env st hnil) h
  | succ fuel ih =>
      by_cases hnil : st.pktBuf = []
      · rw [decode_nil env _ st hnil, decode_nil env _ st hnil]
      · obtain ⟨k, rfl⟩ : ∃ k, fuel' = k + 1 := ⟨fuel' - 1, by omega⟩
        rw [decode, if_neg hnil] at h ⊢
        rw [decode, if_neg hnil]
        dsimp only at h ⊢
        cases hc : checkPackage (env.maxMsgLen st.reads) (env.read st.reads st.pktBuf)
            st.pktBuf.length with
        | some e => rfl
        | none =>
            cases hp : (env.read st.reads st.pktBuf).pkg with
            | none => rfl
            | some pkg =>
                cases hn : next (env.read st.reads st.pktBuf).pkgLen st.pktBuf with
                | none => rfl
                | some rest =>
                    simp only [hc, hp, hn] at h ⊢
                    exact ih (by omega) _ h

private theorem recvRound_fuel_mono (env : Env P) {fuel fuel' : Nat} (hle : fuel ≤ fuel')
    (rc : RecvResult) (st : State P) (h : recvRound env fuel rc st ≠ .outOfFuel) :
    recvRound env fuel' rc st = recvRound env fuel rc st := by
  unfold recvRound at h ⊢
  split
  · rfl
  · next hd =>
      rw [if_neg hd] at h
      exact decode_fuel_mono env hle _ h

/-- More fuel does not change how a run ends. -/
theorem loop_fuel_mono (env : Env P) {fuel fuel' : Nat} (hle : fuel ≤ fuel')
    (rs : List Round) (st : State P) (h : loop env fuel rs st ≠ .decoding) :
    loop env fuel' rs st = loop env fuel rs st := by
  induction rs generalizing st with
  | nil => rfl
  | cons r rs ih =>
      simp only [loop] at h ⊢
      cases hc : r.closed with
      | true => rfl
      | false =>
          simp only [hc, Bool.false_eq_true, if_false] at h ⊢
          have hne : recvRound env fuel r.recv st ≠ .outOfFuel := by
            intro hout
            rw [hout] at h
            exact h rfl
          rw [recvRound_fuel_mono env hle r.recv st hne]
          cases hr : recvRound env fuel r.recv st with
          | outOfFuel => exact absurd hr hne
          | panicked ms => rfl
          | ok st' =>
              simp only [hr] at h ⊢
              cases he : st'.exit with
              | true => rfl
              | false =>
                  simp only [he, Bool.false_eq_true, if_false] at h ⊢
                  exact ih st' h

/-! ## Runs over consecutive rounds -/

/-- A run over more rounds is the run over the first ones, continued from the
state it is blocked in. -/
theorem loop_append (env : Env P) (fuel : Nat) (pre post : List Round) (st : State P) :
    loop env fuel (pre ++ post) st =
      match loop env fuel pre st with
      | .blocked st' => loop env fuel post st'
      | o => o := by
  induction pre generalizing st with
  | nil => rfl
  | cons r rs ih =>
      simp only [List.cons_append, loop]
      cases r.closed with
      | true => rfl
      | false =>
          simp only [Bool.false_eq_true, if_false]
          cases recvRound env fuel r.recv st with
          | outOfFuel => rfl
          | panicked ms => rfl
          | ok st' =>
              by_cases he : st'.exit = true
              · simp only [he, if_true]
              · simp only [he]
                exact ih st'

/-! ## When decoding fails -/

/-- The `Reader`, applied to the buffered bytes and after every package it
accepts to the bytes that remain, ends in an error or in a broken size limit. -/
inductive Rejects (env : Env P) : Nat → Bytes → Prop where
  | here {k : Nat} {buf : Bytes} (hne : buf ≠ [])
      (h : (checkPackage (env.maxMsgLen k) (env.read k buf) buf.length).isSome = true) :
      Rejects env k buf
  | later {k : Nat} {buf rest : Bytes} {pkg : P} (hne : buf ≠ [])
      (hc : checkPackage (env.maxMsgLen k) (env.read k buf) buf.length = none)
      (hp : (env.read k buf).pkg = some pkg) (hn : next (env.read k buf).pkgLen buf = some rest)
      (h : Rejects env (k + 1) rest) : Rejects env k buf

/-- A decode loop over a nonempty buffer ends with `err` set exactly when the
`Reader` rejects the buffer. -/
theorem decode_isSome_iff (env : Env P) (st : State P) (hne : st.pktBuf ≠ []) :
    (∃ fuel st', decode env fuel st = .ok st' ∧ st'.err.isSome = true) ↔
      Rejects env st.reads st.pktBuf := by
  constructor
  · rintro ⟨fuel, st', hd, he⟩
    induction fuel generalizing st with
    | zero => rw [decode_zero env st hne] at hd; cases hd
    | succ fuel ih =>
        rw [decode, if_neg hne] at hd
        dsimp only at hd
        cases hc : checkPackage (env.maxMsgLen st.reads) (env.read st.reads st.pktBuf)
            st.pktBuf.length with
        | some e => exact Rejects.here hne (by rw [hc]; rfl)
        | none =>
            cases hp : (env.read st.reads st.pktBuf).pkg with
            | none =>
                simp only [hc, hp, Decoded.ok.injEq] at hd
                subst hd
                cases he
            | some pkg =>
                cases hn : next (env.read st.reads st.pktBuf).pkgLen st.pktBuf with
                | none => simp [hc, hp, hn] at hd
                | some rest =>
                    simp only [hc, hp, hn] at hd
                    by_cases hrest : rest = []
                    · rw [decode_nil env fuel _ hrest, Decoded.ok.injEq] at hd
                      subst hd
                      cases he
                    · exact Rejects.later hne hc hp hn (ih _ hrest hd)
  · intro hrej
    generalize hk : st.reads = k at hrej
    generalize hb : st.pktBuf = buf at hrej
    induction hrej generalizing st with
    | here hne' h =>
        subst hk hb
        obtain ⟨e, hc⟩ := Option.isSome_iff_exists.mp h
        refine ⟨1, { st with err := some e, exit := true, reads := st.reads + 1 }, ?_, rfl⟩
        rw [decode, if_neg hne]
        simp only [hc]
    | later hne' hc hp hn hrest ih =>
        subst hk hb
        have hrest' := hrest
        obtain ⟨fuel, st', hd, he⟩ := ih
          { st with
            err := none, pktBuf := _, reads := st.reads + 1
            messages := addTask (env.taskOpen st.reads) _ st.messages }
          (by cases hrest' <;> assumption) rfl rfl
        refine ⟨fuel + 1, st', ?_, he⟩
        rw [decode, if_neg hne]
        simp only [hc, hp, hn]
        exact hd

/-! ## Fatal receive errors -/

/-- The loop returns an error, and `handlePackage` therefore invokes `OnError`
with it right before `OnClose`. -/
def ReportsError (env : Env P) (rounds : List Round) : Prop :=
  ∃ fuel e messages, handleTCPPackage env fuel none rounds = .returned (some e) messages ∧
    handlePackageExit true (some e) = [.stop, .onError e, .onClose, .gc]

/-- `recv` reports a fatal error in a round the loop reaches: the state before
that round, and the round itself. -/
structure FatalAt (env : Env P) (pre : List Round) (r : Round) (st : State P) : Prop where
  reached : ∃ fuel, loop env fuel pre State.init = .blocked st
  isOpen : r.closed = false
  fatal : ∃ msg, r.recv.err = some (.other msg)

/-- `exit`, once set, survives the decode loop. -/
theorem decode_exit (env : Env P) (fuel : Nat) (st st' : State P) (hx : st.exit = true)
    (h : decode env fuel st = .ok st') : st'.exit = true := by
  induction fuel generalizing st with
  | zero =>
      by_cases hnil : st.pktBuf = []
      · rw [decode_nil env _ st hnil, Decoded.ok.injEq] at h
        exact h ▸ hx
      · rw [decode_zero env st hnil] at h; cases h
  | succ fuel ih =>
      by_cases hnil : st.pktBuf = []
      · rw [decode_nil env _ st hnil, Decoded.ok.injEq] at h
        exact h ▸ hx
      · rw [decode, if_neg hnil] at h
        dsimp only at h
        split at h
        · cases h; rfl
        · split at h
          · cases h; exact hx
          · split at h
            · cases h
            · exact ih _ (by exact hx) h

/-- A fatal round ends the loop with whatever `err` the round leaves. -/
private theorem loop_fatal (env : Env P) (fuel : Nat) {r : Round} (post : List Round) {st : State P}
    {msg : String} (hopen : r.closed = false) (hfatal : r.recv.err = some (.other msg)) :
    loop env fuel (r :: post) st =
      match recvRound env fuel r.recv st with
      | .ok st' => .returned st'.err st'.messages
      | .panicked messages => .panicked messages
      | .outOfFuel => .decoding := by
  simp only [loop, hopen, Bool.false_eq_true, if_false]
  cases hr : recvRound env fuel r.recv st with
  | outOfFuel => rfl
  | panicked ms => rfl
  | ok st' =>
      have hexit : st'.exit = true := by
        have hx : (st.afterRecv r.recv.err).exit = true := by rw [hfatal]; rfl
        unfold recvRound at hr
        split at hr
        · cases hr; exact hx
        · exact decode_exit env fuel _ st' (by rw [buffer_exit]; exact hx) hr
      simp only [hexit, if_true]

/-- With the fuel that reaches the fatal round, or more, the whole run is that
round. -/
private theorem handleTCPPackage_fatal {env : Env P} {pre : List Round} {r : Round}
    {st : State P} {fuel₀ : Nat} {msg : String}
    (hreach : loop env fuel₀ pre State.init = .blocked st) (hopen : r.closed = false)
    (hfatal : r.recv.err = some (.other msg)) (post : List Round) {fuel : Nat}
    (hle : fuel₀ ≤ fuel) :
    handleTCPPackage env fuel none (pre ++ r :: post) =
      match recvRound env fuel r.recv st with
      | .ok st' => .returned st'.err st'.messages
      | .panicked messages => .panicked messages
      | .outOfFuel => .decoding := by
  have hpre : loop env fuel pre State.init = .blocked st := by
    rw [loop_fuel_mono env hle pre State.init (by rw [hreach]; simp), hreach]
  rw [handleTCPPackage, loop_append, hpre]
  exact loop_fatal env fuel post hopen hfatal

/-- **A fatal receive error is reported** exactly when it came without bytes,
or the `Reader` rejects the bytes buffered so far together with those that came
with it.  In every other case the decode loop clears the shared `err`. -/
theorem fatal_recv_reported_iff (env : Env P) (pre post : List Round) (r : Round)
    (st : State P) (h : FatalAt env pre r st) :
    ReportsError env (pre ++ r :: post) ↔
      r.recv.data = [] ∨ Rejects env st.reads (st.pktBuf ++ r.recv.data) := by
  obtain ⟨⟨fuel₀, hreach⟩, hopen, msg, hfatal⟩ := h
  by_cases hd : r.recv.data = []
  · refine ⟨fun _ => Or.inl hd, fun _ => ?_⟩
    refine ⟨fuel₀, .recv (.other msg), st.messages, ?_, rfl⟩
    rw [handleTCPPackage_fatal hreach hopen hfatal post (Nat.le_refl _)]
    simp [recvRound, hd, hfatal, State.afterRecv]
  · have hbuf : ((st.afterRecv r.recv.err).buffer r.recv.data).pktBuf ≠ [] := by
      intro hnil
      exact hd (List.append_eq_nil_iff.mp hnil).2
    have hrej := decode_isSome_iff env ((st.afterRecv r.recv.err).buffer r.recv.data) hbuf
    rw [buffer_reads, afterRecv_reads, buffer_pktBuf, afterRecv_pktBuf] at hrej
    simp only [hd, false_or]
    rw [← hrej]
    constructor
    · rintro ⟨fuel, e, messages, hret, -⟩
      have hret' : handleTCPPackage env (max fuel fuel₀) none (pre ++ r :: post) =
          .returned (some e) messages := by
        rw [handleTCPPackage] at hret ⊢
        rw [loop_fuel_mono env (Nat.le_max_left _ _) _ _ (by rw [hret]; simp), hret]
      rw [handleTCPPackage_fatal hreach hopen hfatal post (Nat.le_max_right _ _)] at hret'
      simp only [recvRound, hd, if_false] at hret'
      split at hret'
      · next st' hok =>
          simp only [Outcome.returned.injEq] at hret'
          exact ⟨_, st', hok, by rw [hret'.1]; rfl⟩
      · cases hret'
      · cases hret'
    · rintro ⟨fuel, st', hok, herr⟩
      obtain ⟨e, he⟩ := Option.isSome_iff_exists.mp herr
      refine ⟨max fuel fuel₀, e, st'.messages, ?_, rfl⟩
      rw [handleTCPPackage_fatal hreach hopen hfatal post (Nat.le_max_right _ _)]
      simp only [recvRound, hd, if_false]
      rw [decode_fuel_mono env (Nat.le_max_left _ _) _ (by rw [hok]; simp), hok]
      simp only [he]

/-- A `Reader` for one-byte packages on an open session without a limit. -/
def byteEnv : Env UInt8 where
  read _ data := ⟨data.head?, 1, none⟩
  maxMsgLen _ := 0
  taskOpen _ := true

/-- A connection reset that arrives alone is reported. -/
theorem fatal_recv_alone_reported :
    FatalAt byteEnv [] ⟨false, [], some (.other "connection reset")⟩ State.init ∧
      ReportsError byteEnv [⟨false, [], some (.other "connection reset")⟩] :=
  have h : FatalAt byteEnv [] ⟨false, [], some (.other "connection reset")⟩ State.init :=
    ⟨⟨0, rfl⟩, rfl, _, rfl⟩
  ⟨h, (fatal_recv_reported_iff byteEnv [] [] _ State.init h).mpr (Or.inl rfl)⟩

/-- The same error is lost when it arrives together with one complete package:
the decode loop overwrites `err` and the loop returns nil. -/
theorem fatal_recv_with_package_lost :
    FatalAt byteEnv [] ⟨false, [7], some (.other "connection reset")⟩ State.init ∧
      ¬ ReportsError byteEnv [⟨false, [7], some (.other "connection reset")⟩] ∧
      handleTCPPackage byteEnv 1 none [⟨false, [7], some (.other "connection reset")⟩] =
        .returned none [7] := by
  refine ⟨⟨⟨0, rfl⟩, rfl, _, rfl⟩, ?_, rfl⟩
  rintro ⟨fuel, e, messages, h, -⟩
  cases fuel with
  | zero => cases h
  | succ fuel =>
      have hrun : handleTCPPackage byteEnv (fuel + 1) none
          [⟨false, [7], some (.other "connection reset")⟩] = .returned none [7] := by
        simp [handleTCPPackage, loop, recvRound, State.init, State.afterRecv, State.buffer,
          decode, decode_nil, checkPackage, byteEnv, next, addTask]
      rw [hrun] at h
      cases h

end Getty.Transport.Tcp
