import Getty.Transport.Basic

/-!
# The reconnect pass and the event loop that runs it

`reConnect` counts consecutive failures of `connect` against
`WithReconnectAttempts`; the goroutine behind `runReconnect` repeats the pass
while somebody has asked for another one.  `Ops` is what a pass asks of the
client, so the pass itself (`passLoop`) is stated for any client.

The second half is the client of one `RunEventLoop` call that nobody else
interferes with.  There the only triggers come from sessions that end inside
`run()`: `session.stop` reads the reconnect attributes and calls
`runReconnect`, which finds the loop running and leaves it a pending trigger.
So a pass in which one attempt got as far as `OnOpen` is followed by another
whole pass, whatever the limit.

## Main results

* `passLoop_failing` — what a pass over failing attempts does.
* `eventLoop_attempts` — a pending trigger costs at least one whole pass.
* `reconnectAttempts_exact_iff` — when the limit bounds the dialing.
-/

namespace Getty.Transport.Reconnect

/-! ## One pass -/

def defaultReconnectInterval : Nat := 300000000

def defaultMaxReconnectAttempts : Nat := 50

def maxBackOffTimes : Nat := 10

/-- The client options a pass reads; zero means unset. -/
structure Options where
  number : Nat
  reconnectInterval : Nat
  maxReconnectAttempts : Nat

/-- The interval in force. -/
def Options.interval (o : Options) : Nat :=
  if o.reconnectInterval = 0 then defaultReconnectInterval else o.reconnectInterval

/-- The attempt limit in force. -/
def Options.attempts (o : Options) : Nat :=
  if o.maxReconnectAttempts = 0 then defaultMaxReconnectAttempts else o.maxReconnectAttempts

theorem Options.attempts_pos (o : Options) : 0 < o.attempts := by
  unfold Options.attempts
  split
  · decide
  · omega

/-- What a pass asks of the client: whether `done` is closed, the number of
active sessions, one connection attempt, and the wait before the next one,
which answers `true` when `done` was closed first. -/
structure Ops (σ : Type) where
  isClosed : σ → Bool × σ
  sessionNum : σ → Nat × σ
  connect : σ → Bool × σ
  backoff : Nat → σ → Bool × σ

/-- The loop of `reConnect` after `reconnectAttempts` consecutive failures;
`none` when the fuel is used up. -/
def passLoop {σ : Type} (ops : Ops σ) (o : Options) : Nat → Nat → σ → Option σ
  | fuel, reconnectAttempts, s =>
      if reconnectAttempts < o.attempts then
        match fuel with
        | 0 => none
        | fuel + 1 =>
            let (closed, s) := ops.isClosed s
            if closed then some s
            else
              let (num, s) := ops.sessionNum s
              if o.number ≤ num then some s
              else
                let (ok, s) := ops.connect s
                if ok then passLoop ops o fuel 0 s
                else
                  let (closed, s) := ops.isClosed s
                  if closed then some s
                  else
                    let (num, s) := ops.sessionNum s
                    if o.number ≤ num then some s
                    else if o.attempts ≤ reconnectAttempts + 1 then some s
                    else
                      let backOffTimes := min (reconnectAttempts + 1) maxBackOffTimes
                      let (stopped, s) := ops.backoff (backOffTimes * o.interval) s
                      if stopped then some s
                      else passLoop ops o fuel (reconnectAttempts + 1) s
      else some s

/-- `reConnect`. -/
def reConnect {σ : Type} (ops : Ops σ) (o : Options) (fuel : Nat) (s : σ) : Option σ :=
  passLoop ops o fuel 0 s

/-! ## The client of one event loop -/

/-- What the client looks at in a session: whether `Connection` is present,
`done` is closed, and the attributes, `none` once `gc` has erased them. -/
structure Session where
  connection : Bool
  done : Bool
  attrs : Option Attrs
  deriving Repr, DecidableEq

/-- `clientSessionActive`. -/
def Session.active (s : Session) : Bool := s.connection && !s.done

/-- `RemoveAttribute` of both reconnect keys. -/
def Session.dropAttrs (s : Session) : Session :=
  { s with attrs := s.attrs.map (fun _ => ⟨false, none⟩) }

/-- The client: its closed `done` channel, the pool, the two reconnect
variables, and how many reconnect goroutines and connection attempts there have
been. -/
structure Client where
  done : Bool
  ssMap : Option (List Session)
  reconnectDone : Bool
  reconnectPending : Bool
  loops : Nat
  attempts : Nat
  deriving Repr, DecidableEq

/-- `newClient`. -/
def Client.new : Client := ⟨false, some [], false, false, 0, 0⟩

/-- How `OnOpen` behaves.  `callOnOpen` turns a panic into an error. -/
inductive OnOpen where
  | returnsError
  | panics
  | closes
  | succeeds
  deriving Repr, DecidableEq

/-- How `NewSessionCallback` fails; `callNewSession` makes both an error. -/
inductive NewSessionFailure where
  | returnsError
  | panics
  deriving Repr, DecidableEq

/-- How far one connection attempt gets. -/
inductive Attempt where
  | dialFails
  | newSession (failure : NewSessionFailure)
  | onOpen (behaviour : OnOpen)
  deriving Repr, DecidableEq

/-- The attempt is one of the failures. -/
def Attempt.fails : Attempt → Bool
  | .dialFails => true
  | .newSession _ => true
  | .onOpen b => b ≠ .succeeds

/-- The attempt got as far as `OnOpen`, with the reconnect attributes set. -/
def Attempt.opens : Attempt → Bool
  | .onOpen _ => true
  | _ => false

/-- `runReconnect`, up to the goroutine it starts. -/
def Client.runReconnect (c : Client) : Client :=
  if c.done then c
  else if c.reconnectDone then { c with reconnectPending := true }
  else { c with reconnectDone := true, reconnectPending := true, loops := c.loops + 1 }

/-- `session.stop`: the once body closes `done` and triggers a reconnect when
both attributes ask for it. -/
def stop (c : Client) (s : Session) : Client × Session :=
  if s.done then (c, s)
  else
    match s.attrs with
    | some ⟨true, some false⟩ => (c.runReconnect, { s with done := true })
    | _ => (c, { s with done := true })

/-- `session.gc`. -/
def gc (s : Session) : Session :=
  match s.attrs with
  | none => s
  | some _ => { s with attrs := none, connection := false }

/-- `session.run`: an error or a panic of `OnOpen` closes the session and
collects it; otherwise the read loop is started, also on a session that
`OnOpen` has closed. -/
def run (c : Client) (s : Session) : OnOpen → Client × Session
  | .returnsError => ((stop c s).1, gc (stop c s).2)
  | .panics => ((stop c s).1, gc (stop c s).2)
  | .closes => stop c s
  | .succeeds => (c, s)

/-- `sessionNum`: prunes the pool and counts it. -/
def Client.sessionNum (c : Client) : Nat × Client :=
  match c.ssMap with
  | none => (0, c)
  | some ss =>
      ((ss.filter Session.active).length, { c with ssMap := some (ss.filter Session.active) })

/-- The critical section of `connect` that admits a session after `run()`. -/
def addSession (number : Nat) (c : Client) (s : Session) : Bool × Client :=
  match c.ssMap with
  | none => (false, (stop c s.dropAttrs).1)
  | some ss =>
      if s.active then
        let ss := ss.filter Session.active
        if number ≤ ss.length then (false, (stop { c with ssMap := some ss } s.dropAttrs).1)
        else (true, { c with ssMap := some (ss ++ [s]) })
      else (false, c)

/-- `connect`; the attempt made is the next of the run, and `dial` gives up at
once on a closed client. -/
def connect (number : Nat) (outcome : Nat → Attempt) (c : Client) : Bool × Client :=
  let tried := { c with attempts := c.attempts + 1 }
  if c.done then (false, tried)
  else
    match outcome c.attempts with
    | .dialFails => (false, tried)
    | .newSession _ => (false, tried)
    | .onOpen b =>
        let opened := run tried ⟨true, false, some ⟨true, some false⟩⟩ b
        addSession number opened.1 opened.2

/-- The client as a pass sees it; nobody closes it during a wait. -/
def ops (number : Nat) (outcome : Nat → Attempt) : Ops Client where
  isClosed c := (c.done, c)
  sessionNum c := c.sessionNum
  connect := connect number outcome
  backoff _ c := (c.done, c)

/-- The goroutine takes the pending trigger before it starts a pass. -/
def Client.takeTrigger (c : Client) : Client := { c with reconnectPending := false }

/-- The goroutine of `runReconnect`. -/
def eventLoop (o : Options) (outcome : Nat → Attempt) : Nat → Client → Option Client
  | 0, _ => none
  | fuel + 1, c =>
      if c.done then some { c with reconnectDone := false, reconnectPending := false }
      else if c.reconnectPending then
        match reConnect (ops o.number outcome) o fuel c.takeTrigger with
        | none => none
        | some c => eventLoop o outcome fuel c
      else some { c with reconnectDone := false }

/-- `RunEventLoop` on a new client: the trigger, and the wait for the goroutine
it started.  `none` when it has not returned within the fuel. -/
def runEventLoop (o : Options) (outcome : Nat → Attempt) (fuel : Nat) : Option Client :=
  eventLoop o outcome fuel Client.new.runReconnect

/-! ## Passes over failing attempts -/

section Failing

variable (o : Options) (outcome : Nat → Attempt)

/-- The reconnect goroutine is running and the pool is empty. -/
structure Running (c : Client) : Prop where
  isOpen : c.done = false
  pool : c.ssMap = some []
  loop : c.reconnectDone = true

/-- The client after `n` failing attempts: those that opened a session have
left a pending trigger. -/
def after (c : Client) (n : Nat) : Client :=
  { c with
    attempts := c.attempts + n
    reconnectPending :=
      c.reconnectPending || (List.range n).any (fun i => (outcome (c.attempts + i)).opens) }

theorem Running.takeTrigger {c : Client} (h : Running c) : Running c.takeTrigger :=
  ⟨h.isOpen, h.pool, h.loop⟩

theorem Running.after {c : Client} (h : Running c) (n : Nat) : Running (after outcome c n) :=
  ⟨h.isOpen, h.pool, h.loop⟩

private theorem after_succ (c : Client) (n : Nat) :
    after outcome c (n + 1) = after outcome (after outcome c 1) n := by
  have hany : (List.range (n + 1)).any (fun i => (outcome (c.attempts + i)).opens) =
      ((outcome c.attempts).opens ||
        (List.range n).any (fun i => (outcome (c.attempts + 1 + i)).opens)) := by
    rw [List.range_succ_eq_map, List.any_cons, List.any_map, Nat.add_zero]
    simp only [Function.comp_def, Nat.add_succ, Nat.succ_add, Nat.add_zero]
  simp only [after, hany, List.range_one, List.any_cons, List.any_nil, Bool.or_false,
    Nat.add_zero, Bool.or_assoc]
  rw [Nat.add_comm n 1, Nat.add_assoc]

/-- **A session that ends inside `run()`** leaves a pending trigger and is not
admitted. -/
theorem connect_failing {c : Client} (hc : Running c)
    (hf : (outcome c.attempts).fails = true) :
    connect o.number outcome c = (false, after outcome c 1) := by
  obtain ⟨done, ssMap, reconnectDone, pending, loops, attempts⟩ := c
  obtain ⟨rfl, rfl, rfl⟩ := hc
  dsimp only at hf
  simp only [connect, after, List.range_one, List.any_cons, List.any_nil, Bool.or_false,
    Nat.add_zero, Bool.false_eq_true, if_false]
  cases ho : outcome attempts with
  | dialFails => simp [Attempt.opens]
  | newSession f => simp [Attempt.opens]
  | onOpen b =>
      rw [ho] at hf
      cases b with
      | returnsError => simp [run, stop, gc, addSession, Client.runReconnect, Session.active,
          Attempt.opens]
      | panics => simp [run, stop, gc, addSession, Client.runReconnect, Session.active,
          Attempt.opens]
      | closes => simp [run, stop, addSession, Client.runReconnect, Session.active, Attempt.opens]
      | succeeds => simp [Attempt.fails] at hf

/-- **Step lemma.**  One turn of the loop over a failing attempt. -/
theorem passLoop_step (hn : 0 < o.number) {c : Client} (hc : Running c)
    (hf : (outcome c.attempts).fails = true) {a : Nat} (ha : a < o.attempts) (fuel : Nat) :
    passLoop (ops o.number outcome) o (fuel + 1) a c =
      if o.attempts ≤ a + 1 then some (after outcome c 1)
      else passLoop (ops o.number outcome) o fuel (a + 1) (after outcome c 1) := by
  have hnum : ∀ c : Client, Running c → c.sessionNum = (0, c) := by
    intro c hc
    obtain ⟨done, ssMap, reconnectDone, pending, loops, attempts⟩ := c
    obtain ⟨rfl, rfl, rfl⟩ := hc
    rfl
  have hpool : ¬ o.number ≤ 0 := by omega
  have hc' := hc.after outcome 1
  rw [passLoop, if_pos ha]
  simp only [ops, hc.isOpen, Bool.false_eq_true, if_false, hnum c hc, hpool,
    connect_failing o outcome hc hf, hc'.isOpen, hnum _ hc']

/-- **Run lemma.**  A pass over failing attempts makes all that are left of its
limit. -/
theorem passLoop_failing (hn : 0 < o.number) (hfail : ∀ i, (outcome i).fails = true)
    (fuel a : Nat) (c : Client) (hc : Running c) (ha : a < o.attempts) :
    passLoop (ops o.number outcome) o fuel a c =
      if o.attempts - a ≤ fuel then some (after outcome c (o.attempts - a)) else none := by
  induction fuel generalizing a c with
  | zero =>
      rw [passLoop, if_pos ha, if_neg (by omega)]
  | succ fuel ih =>
      rw [passLoop_step o outcome hn hc (hfail _) ha]
      by_cases hlast : o.attempts ≤ a + 1
      · have hone : o.attempts - a = 1 := by omega
        rw [if_pos hlast, hone, if_pos (by omega)]
      · obtain ⟨n, hrest⟩ : ∃ n, o.attempts - a = n + 1 := ⟨o.attempts - a - 1, by omega⟩
        have hrest' : o.attempts - (a + 1) = n := by omega
        rw [if_neg hlast, ih (a + 1) _ (hc.after outcome 1) (by omega), hrest, hrest',
          ← after_succ]
        simp only [Nat.add_le_add_iff_right]

private theorem reConnect_failing (hn : 0 < o.number) (hfail : ∀ i, (outcome i).fails = true)
    (fuel : Nat) (c : Client) (hc : Running c) :
    reConnect (ops o.number outcome) o fuel c =
      if o.attempts ≤ fuel then some (after outcome c o.attempts) else none := by
  rw [reConnect, passLoop_failing o outcome hn hfail fuel 0 c hc o.attempts_pos, Nat.sub_zero]

/-! ## The event loop over failing attempts -/

/-- One turn of the reconnect goroutine when a trigger is pending. -/
theorem eventLoop_pending (hn : 0 < o.number) (hfail : ∀ i, (outcome i).fails = true)
    {c : Client} (hc : Running c) (hp : c.reconnectPending = true) (fuel : Nat) :
    eventLoop o outcome (fuel + 1) c =
      if o.attempts ≤ fuel then
        eventLoop o outcome fuel (after outcome c.takeTrigger o.attempts)
      else none := by
  simp only [eventLoop, hc.isOpen, Bool.false_eq_true, if_false, hp, if_true,
    reConnect_failing o outcome hn hfail fuel _ hc.takeTrigger]
  by_cases hle : o.attempts ≤ fuel
  · simp only [hle, if_true]
  · simp only [hle, if_false]

/-- A pending trigger costs at least one whole pass before the loop returns. -/
theorem eventLoop_attempts (hn : 0 < o.number) (hfail : ∀ i, (outcome i).fails = true)
    (fuel : Nat) (c c' : Client) (hc : Running c) (h : eventLoop o outcome fuel c = some c') :
    c.attempts + (if c.reconnectPending then o.attempts else 0) ≤ c'.attempts := by
  induction fuel generalizing c with
  | zero => cases h
  | succ fuel ih =>
      cases hp : c.reconnectPending with
      | false =>
          simp only [eventLoop, hc.isOpen, hp, Bool.false_eq_true, if_false,
            Option.some.injEq] at h
          subst h
          simp
      | true =>
          rw [eventLoop_pending o outcome hn hfail hc hp] at h
          split at h
          · have hle := ih _ (hc.takeTrigger.after outcome _) h
            have htried : (after outcome c.takeTrigger o.attempts).attempts =
                c.attempts + o.attempts := rfl
            simp only [if_true]
            omega
          · cases h

theorem running_new : Running Client.new.runReconnect := ⟨rfl, rfl, rfl⟩

/-- The first pass of `RunEventLoop`. -/
theorem runEventLoop_first (hn : 0 < o.number) (hfail : ∀ i, (outcome i).fails = true)
    (fuel : Nat) :
    runEventLoop o outcome (fuel + 1) =
      if o.attempts ≤ fuel then
        eventLoop o outcome fuel (after outcome Client.new.runReconnect.takeTrigger o.attempts)
      else none := by
  rw [runEventLoop, eventLoop_pending o outcome hn hfail running_new rfl]

/-- Whether the first pass leaves a pending trigger. -/
theorem first_pass_pending (n : Nat) :
    (after outcome Client.new.runReconnect.takeTrigger n).reconnectPending = true ↔
      ∃ i < n, (outcome i).opens = true := by
  simp [after, Client.takeTrigger, Client.runReconnect, Client.new]

/-- With an attempt in the first pass that opened a session, `RunEventLoop` does
not return before a second pass. -/
theorem two_passes_of_opens (hn : 0 < o.number) (hfail : ∀ i, (outcome i).fails = true)
    {i : Nat} (hi : i < o.attempts) (hopen : (outcome i).opens = true) {fuel : Nat} {c : Client}
    (h : runEventLoop o outcome fuel = some c) : 2 * o.attempts ≤ c.attempts := by
  cases fuel with
  | zero => cases h
  | succ fuel =>
      rw [runEventLoop_first o outcome hn hfail] at h
      split at h
      · have hle := eventLoop_attempts o outcome hn hfail fuel _ c
          (running_new.takeTrigger.after outcome _) h
        rw [if_pos ((first_pass_pending outcome _).mpr ⟨i, hi, hopen⟩)] at hle
        have htried : (after outcome Client.new.runReconnect.takeTrigger o.attempts).attempts =
            o.attempts := Nat.zero_add _
        omega
      · cases h

end Failing

/-! ## The limit -/

/-- `RunEventLoop` returns after exactly the configured number of attempts, and
no second reconnect goroutine was started. -/
def DialsExactly (o : Options) (outcome : Nat → Attempt) : Prop :=
  ∃ fuel c, runEventLoop o outcome fuel = some c ∧ c.attempts = o.attempts ∧ c.loops = 1 ∧
    c.reconnectDone = false

/-- **The attempt limit is exact** when every attempt fails, if and only if none
of the attempts it allows got as far as `OnOpen`. -/
theorem reconnectAttempts_exact_iff (o : Options) (outcome : Nat → Attempt)
    (hn : 0 < o.number) (hfail : ∀ i, (outcome i).fails = true) :
    DialsExactly o outcome ↔ ∀ i < o.attempts, (outcome i).opens = false := by
  constructor
  · rintro ⟨fuel, c, hrun, hexact, -⟩ i hi
    cases hopen : (outcome i).opens with
    | false => rfl
    | true =>
        have htwo := two_passes_of_opens o outcome hn hfail hi hopen hrun
        have hpos := o.attempts_pos
        omega
  · intro hclosed
    have hpending : (after outcome Client.new.runReconnect.takeTrigger
        o.attempts).reconnectPending = false := by
      rw [← Bool.not_eq_true, first_pass_pending]
      rintro ⟨i, hi, hopen⟩
      rw [hclosed i hi] at hopen
      cases hopen
    have hopen := (running_new.takeTrigger.after outcome o.attempts).isOpen
    refine ⟨o.attempts + 2,
      { after outcome Client.new.runReconnect.takeTrigger o.attempts with reconnectDone := false },
      ?_, Nat.zero_add o.attempts, rfl, rfl⟩
    rw [runEventLoop_first o outcome hn hfail, if_pos (by omega)]
    simp only [eventLoop, hopen, hpending, Bool.false_eq_true, if_false]

/-- Dial and callback failures in any order: the limit is exact. -/
theorem reconnectAttempts_exact_three :
    DialsExactly ⟨1, 0, 3⟩ (fun i => if i = 1 then .newSession .panics else .dialFails) :=
  (reconnectAttempts_exact_iff ⟨1, 0, 3⟩ _ (by decide)
    (fun i => by split <;> rfl)).mpr
    (fun i _ => by split <;> rfl)

/-- A limit of one attempt, an `OnOpen` that fails once, and a server that is
down afterwards: two attempts are made. -/
theorem reconnectAttempts_exceeded_after_onOpen :
    ¬ DialsExactly ⟨1, 0, 1⟩ (fun i => if i = 0 then .onOpen .returnsError else .dialFails) ∧
      (runEventLoop ⟨1, 0, 1⟩ (fun i => if i = 0 then .onOpen .returnsError else .dialFails) 4).map
        Client.attempts = some 2 := by
  refine ⟨?_, rfl⟩
  rintro ⟨fuel, c, hrun, hexact, -⟩
  have htwo := two_passes_of_opens ⟨1, 0, 1⟩ _ (by decide)
    (fun i => by split <;> rfl) (i := 0) (by decide) rfl hrun
  rw [hexact] at htwo
  exact absurd htwo (by decide)

end Getty.Transport.Reconnect
