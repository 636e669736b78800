import Getty.Verified.ThreadPool

/-!
# Reconnect triggers are single-flight

`runReconnect`, the goroutine it starts and `client.stop` meet in four fields
of the client, each access a critical section under the client's mutex:
`done`, `reconnectDone` (the running loop's completion channel),
`reconnectPending`, and the channels themselves.  `Flight` holds them, with
three ghosts: the number of passes started, the numbers of those finished, and
for every `runReconnect` call its channel and how many passes had started.

The argument follows the channel of a call.  While `reconnectDone` is that
channel, the call's trigger is pending or a later pass has started; when the
loop gives it up without a pending trigger, all passes it started have
finished.  Single flight itself is a count: as long as `reconnectDone` is set
there is exactly one loop that owns it, and only an owner is in a pass.

## Main results

* `outline_valid` — the invariant survives every critical section.
* `reconnect_single_flight` — one pass at a time, no trigger lost, no pass
  after the close.
-/

namespace Getty.Transport.SingleFlight

open Getty.Verified.ThreadPool

/-! ## The critical sections -/

/-- A `runReconnect` call: the channel it returned, and the number of passes
that had started before it. -/
structure Call where
  chan : Nat
  started : Nat
  deriving Repr, DecidableEq

/-- The reconnect fields of the client.  Channels are numbered in the order
`make` returns them; `done` is whether `c.done` is closed. -/
structure Flight where
  done : Bool
  reconnectDone : Option Nat
  reconnectPending : Bool
  nextChan : Nat
  closedChans : List Nat
  started : Nat
  startedAtStop : Nat
  finished : List Nat
  calls : List Call
  deriving Repr, DecidableEq

def Flight.init : Flight := ⟨false, none, false, 0, [], 0, 0, [], []⟩

/-- `runReconnect`, with the channel of the loop it starts, if any. -/
def Flight.runReconnect (f : Flight) : Flight × Option Nat :=
  if f.done then
    ({ f with
        nextChan := f.nextChan + 1, closedChans := f.nextChan :: f.closedChans
        calls := ⟨f.nextChan, f.started⟩ :: f.calls }, none)
  else
    match f.reconnectDone with
    | some ch =>
        ({ f with
            nextChan := f.nextChan + 1, reconnectPending := true
            calls := ⟨ch, f.started⟩ :: f.calls }, none)
    | none =>
        ({ f with
            nextChan := f.nextChan + 1, reconnectDone := some f.nextChan
            reconnectPending := true, calls := ⟨f.nextChan, f.started⟩ :: f.calls },
          some f.nextChan)

/-- The critical section at the top of the reconnect goroutine, with whether it
goes on to a pass. -/
def Flight.next (f : Flight) : Flight × Bool :=
  if f.done then ({ f with reconnectDone := none, reconnectPending := false }, false)
  else if f.reconnectPending then
    ({ f with reconnectPending := false, started := f.started + 1 }, true)
  else ({ f with reconnectDone := none }, false)

/-- The critical section of `client.stop`, as far as it concerns reconnects.  The
client's `sync.Once` runs it on an open client only. -/
def Flight.stop (f : Flight) : Flight :=
  if f.done then f else { f with done := true, startedAtStop := f.started }

/-- The pass with the given number returns. -/
def Flight.finish (f : Flight) (n : Nat) : Flight := { f with finished := n :: f.finished }

/-- `close(done)` of a loop's own channel. -/
def Flight.closeChan (f : Flight) (ch : Nat) : Flight :=
  { f with closedChans := ch :: f.closedChans }

/-- Only `client.stop` closes `done`. -/
theorem Flight.runReconnect_done (f : Flight) : f.runReconnect.1.done = f.done := by
  unfold Flight.runReconnect
  split
  · rfl
  · split <;> rfl

theorem Flight.next_done (f : Flight) : f.next.1.done = f.done := by
  unfold Flight.next
  split
  · rfl
  · split <;> rfl

theorem Flight.stop_done (f : Flight) : f.stop.done = true := by
  unfold Flight.stop
  split
  · assumption
  · rfl

/-! ## Threads -/

/-- A thread: a caller of `runReconnect`, a reconnect goroutine before its
critical section, in its pass number `n`, or about to close its channel, and a
caller of `Close`. -/
inductive Thread where
  | trigger
  | top (ch : Nat)
  | pass (ch n : Nat)
  | closing (ch : Nat)
  | stop
  deriving Repr, DecidableEq

/-- One step.  How long a pass takes is up to the schedule; a repeated `Close`
finds the once body done. -/
def step (f : Flight) : Thread → List (Flight × List Thread)
  | .trigger =>
      [(f.runReconnect.1, match f.runReconnect.2 with
        | some ch => [.top ch]
        | none => [])]
  | .top ch =>
      [(f.next.1, if f.next.2 then [.pass ch f.next.1.started] else [.closing ch])]
  | .pass ch n => [(f.finish n, [.top ch])]
  | .closing ch => [(f.closeChan ch, [])]
  | .stop => [(f.stop, [])]

/-- Anybody may call `runReconnect` and `Close` at any time. -/
def prog : Prog Flight Thread where
  entry _ th := th = .trigger ∨ th = .stop
  step := step

def initial : Conf Flight Thread := ⟨Flight.init, []⟩

/-- The thread executes a pass. -/
def Thread.inPass : Thread → Bool
  | .pass _ _ => true
  | _ => false

/-- The thread is the loop that owns `reconnectDone`. -/
def Thread.isLoop : Thread → Bool
  | .top _ => true
  | .pass _ _ => true
  | _ => false

/-! ## The invariant -/

/-- A pass that started after the call has finished. -/
def Served (f : Flight) (k : Call) : Prop := ∃ n ∈ f.finished, k.started < n

/-- The invariant of the reconnect fields. -/
structure Inv (f : Flight) : Prop where
  fresh : ∀ ch, f.reconnectDone = some ch → ch < f.nextChan
  closedFresh : ∀ ch ∈ f.closedChans, ch < f.nextChan ∧ f.reconnectDone ≠ some ch
  passes : ∀ n, 0 < n → n ≤ f.started →
    n ∈ f.finished ∨ (n = f.started ∧ f.finished.length < f.started)
  called : ∀ k ∈ f.calls, k.started ≤ f.started
  /-- The channel of the running loop: the trigger is pending or has been taken. -/
  taken : ∀ k ∈ f.calls, f.done = false → f.reconnectDone = some k.chan →
    f.reconnectPending = true ∨ k.started < f.started
  /-- Any other channel: the call has been served. -/
  served : ∀ k ∈ f.calls, f.reconnectDone ≠ some k.chan → f.done = true ∨ Served f k
  stopped : f.done = true → f.started = f.startedAtStop

/-- The assertion of a thread. -/
def Local (f : Flight) : Thread → Prop
  | .trigger => True
  | .top ch => ch < f.nextChan
  | .pass ch n => ch < f.nextChan ∧ n = f.started ∧ 0 < n
  | .closing ch => ch < f.nextChan ∧ f.reconnectDone ≠ some ch
  | .stop => True

/-- The ledgers: the loop that owns `reconnectDone`, the pass it may be in, and
the loop outside a pass. -/
inductive Ledger where
  | loop
  | pass
  | idle

def outline : Outline Flight Thread Ledger where
  shared := Inv
  loc := Local
  val
    | .loop, f => f.reconnectDone.isSome.toNat
    | .pass, f => f.started - f.finished.length
    | .idle, f => f.reconnectDone.isSome.toNat - (f.started - f.finished.length)
  wt
    | .loop, th => th.isLoop.toNat
    | .pass, th => th.inPass.toNat
    | .idle, th => (th.isLoop && !th.inPass).toNat

/-- The ledgers bound a thread's own weights. -/
abbrev Booked (f : Flight) (th : Thread) : Prop := outline.Booked f th

/-- What a step has to deliver for the thread that takes it. -/
abbrev Keeps (f : Flight) (th : Thread) (f' : Flight) (ths : List Thread) : Prop :=
  outline.Keeps f th f' ths

/-! ## The steps of a thread -/

section Own

variable {f : Flight}

/-- At the top of the loop every pass that was started has finished. -/
theorem Booked.all_finished {ch : Nat} (hb : Booked f (.top ch)) :
    f.reconnectDone.isSome = true ∧ f.finished.length = f.started := by
  have hloop := hb .loop
  have hpass := hb .pass
  have hidle := hb .idle
  simp only [outline, Thread.isLoop, Thread.inPass, Bool.toNat_true, Bool.toNat_false,
    Bool.not_false, Bool.and_self] at hloop hpass hidle
  cases h : f.reconnectDone.isSome with
  | true =>
      rw [h, Bool.toNat_true] at hidle
      exact ⟨rfl, by omega⟩
  | false => simp [h] at hloop

private theorem called_cons (hf : Inv f) (ch : Nat) :
    ∀ k ∈ Call.mk ch f.started :: f.calls, k.started ≤ f.started := by
  intro k hk
  rcases List.mem_cons.mp hk with rfl | hk
  · exact Nat.le_refl _
  · exact hf.called k hk

private theorem keeps_trigger (hf : Inv f) {f' : Flight} {ths : List Thread}
    (h : (f', ths) ∈ step f .trigger) : Keeps f .trigger f' ths := by
  cases List.mem_singleton.mp h
  unfold Flight.runReconnect
  split
  · next hdone =>
      refine ⟨⟨?_, ?_, hf.passes, called_cons hf _, ?_, fun _ _ _ => Or.inl hdone, hf.stopped⟩,
        by simp, ?_⟩
      · intro ch hch
        exact Nat.lt_succ_of_lt (hf.fresh ch hch)
      · intro ch hch
        rcases List.mem_cons.mp hch with rfl | hch
        · exact ⟨Nat.lt_succ_self _, fun hcur => Nat.lt_irrefl _ (hf.fresh _ hcur)⟩
        · exact ⟨Nat.lt_succ_of_lt (hf.closedFresh ch hch).1, (hf.closedFresh ch hch).2⟩
      · intro k _ hopen
        dsimp only at hopen
        rw [hdone] at hopen
        cases hopen
      · intro i
        cases i <;> rfl
  · next hopen =>
      split
      · next ch hcur =>
          refine ⟨⟨?_, ?_, hf.passes, called_cons hf _, fun _ _ _ _ => Or.inl rfl, ?_, hf.stopped⟩,
            by simp, ?_⟩
          · intro ch' hch'
            exact Nat.lt_succ_of_lt (hf.fresh ch' hch')
          · intro ch' hch'
            exact ⟨Nat.lt_succ_of_lt (hf.closedFresh ch' hch').1, (hf.closedFresh ch' hch').2⟩
          · intro k hk hne
            rcases List.mem_cons.mp hk with rfl | hk
            · exact absurd hcur hne
            · exact hf.served k hk hne
          · intro i
            cases i <;> simp [outline, Thread.isLoop, Thread.inPass]
      · next hcur =>
          refine ⟨⟨?_, ?_, hf.passes, called_cons hf _, fun _ _ _ _ => Or.inl rfl, ?_, hf.stopped⟩,
            ?_, ?_⟩
          · intro ch hch
            cases hch
            exact Nat.lt_succ_self _
          · intro ch hch
            have hlt := (hf.closedFresh ch hch).1
            refine ⟨Nat.lt_succ_of_lt hlt, fun hnew => ?_⟩
            rw [Option.some.injEq] at hnew
            omega
          · intro k hk hne
            rcases List.mem_cons.mp hk with rfl | hk
            · exact absurd rfl hne
            · exact hf.served k hk (by rw [hcur]; simp)
          · exact List.forall_mem_singleton.mpr (Nat.lt_succ_self _)
          · intro i
            cases i with
            | idle => simp [outline, Thread.isLoop, Thread.inPass, hcur]; omega
            | _ => simp [outline, Thread.isLoop, Thread.inPass, hcur]

private theorem keeps_top (hf : Inv f) {ch : Nat} (hl : Local f (.top ch)) (hb : Booked f (.top ch))
    {f' : Flight} {ths : List Thread} (h : (f', ths) ∈ step f (.top ch)) :
    Keeps f (.top ch) f' ths := by
  obtain ⟨hcur, hall⟩ := hb.all_finished
  obtain ⟨cur, hcur⟩ := Option.isSome_iff_exists.mp hcur
  have hfin : ∀ n, 0 < n → n ≤ f.started → n ∈ f.finished := by
    intro n hpos hle
    rcases hf.passes n hpos hle with hn | ⟨-, hlt⟩
    · exact hn
    · omega
  cases List.mem_singleton.mp h
  unfold Flight.next
  split
  · next hdone =>
      refine ⟨⟨by simp, ?_, hf.passes, hf.called, by simp,
        fun _ _ _ => Or.inl hdone, hf.stopped⟩, ?_, ?_⟩
      · exact fun ch' hch' => ⟨(hf.closedFresh ch' hch').1, by simp⟩
      · exact List.forall_mem_singleton.mpr ⟨hl, by simp⟩
      · intro i
        cases i <;> simp [outline, Thread.isLoop, Thread.inPass, hcur, hall]
  · next hopen =>
      split
      · next hpending =>
          refine ⟨⟨hf.fresh, hf.closedFresh, ?_, ?_, ?_, hf.served, ?_⟩, ?_, ?_⟩
          · intro n hpos hle
            dsimp only at hle ⊢
            by_cases hn : n ≤ f.started
            · exact Or.inl (hfin n hpos hn)
            · exact Or.inr ⟨by omega, by omega⟩
          · exact fun k hk => Nat.le_succ_of_le (hf.called k hk)
          · exact fun k hk _ _ => Or.inr (Nat.lt_succ_of_le (hf.called k hk))
          · intro hdone
            exact absurd hdone hopen
          · exact List.forall_mem_singleton.mpr ⟨hl, rfl, Nat.succ_pos _⟩
          · intro i
            cases i <;> simp [outline, Thread.isLoop, Thread.inPass, hcur, hall]
      · next hpending =>
          refine ⟨⟨by simp, ?_, hf.passes, hf.called, by simp, ?_, hf.stopped⟩, ?_, ?_⟩
          · exact fun ch' hch' => ⟨(hf.closedFresh ch' hch').1, by simp⟩
          · intro k hk _
            by_cases hk' : f.reconnectDone = some k.chan
            · rcases hf.taken k hk (by simpa using hopen) hk' with hp | hlt
              · exact absurd hp hpending
              · exact Or.inr ⟨f.started, hfin _ (by omega) (Nat.le_refl _), hlt⟩
            · exact hf.served k hk hk'
          · exact List.forall_mem_singleton.mpr ⟨hl, by simp⟩
          · intro i
            cases i <;> simp [outline, Thread.isLoop, Thread.inPass, hcur, hall]

private theorem keeps_pass (hf : Inv f) {ch n : Nat} (hl : Local f (.pass ch n)) :
    Keeps f (.pass ch n) (f.finish n) [.top ch] := by
  obtain ⟨hch, rfl, hpos⟩ := hl
  refine ⟨⟨hf.fresh, hf.closedFresh, ?_, hf.called, hf.taken, ?_, hf.stopped⟩, ?_, ?_⟩
  · intro m hm hle
    rcases hf.passes m hm hle with hfin | ⟨rfl, -⟩
    · exact Or.inl (List.mem_cons_of_mem _ hfin)
    · exact Or.inl (List.mem_cons_self ..)
  · intro k hk hne
    rcases hf.served k hk hne with hdone | ⟨m, hm, hlt⟩
    · exact Or.inl hdone
    · exact Or.inr ⟨m, List.mem_cons_of_mem _ hm, hlt⟩
  · exact List.forall_mem_singleton.mpr hch
  · intro i
    cases i <;> simp [outline, Thread.isLoop, Thread.inPass, Flight.finish] <;> omega

private theorem keeps_closing (hf : Inv f) {ch : Nat} (hl : Local f (.closing ch)) :
    Keeps f (.closing ch) (f.closeChan ch) [] := by
  refine ⟨⟨hf.fresh, ?_, hf.passes, hf.called, hf.taken, hf.served, hf.stopped⟩, by simp, ?_⟩
  · intro ch' hch'
    rcases List.mem_cons.mp hch' with rfl | hch'
    · exact hl
    · exact hf.closedFresh ch' hch'
  · intro i
    cases i <;> rfl

private theorem keeps_stop (hf : Inv f) : Keeps f .stop f.stop [] := by
  unfold Flight.stop
  split
  · refine ⟨hf, List.forall_mem_nil _, fun i => ?_⟩
    cases i <;> rfl
  · refine ⟨⟨hf.fresh, hf.closedFresh, hf.passes, hf.called, ?_, fun _ _ _ => Or.inl rfl,
      fun _ => rfl⟩, List.forall_mem_nil _, fun i => ?_⟩
    · intro k _ hopen
      cases hopen
    · cases i <;> rfl

/-- **Step lemma**, for the thread that takes the step. -/
theorem keeps_step (hf : Inv f) {th : Thread} (hl : Local f th) (hb : Booked f th) {f' : Flight}
    {ths : List Thread} (h : (f', ths) ∈ step f th) : Keeps f th f' ths := by
  cases th with
  | trigger => exact keeps_trigger hf h
  | top ch => exact keeps_top hf hl hb h
  | pass ch n =>
      cases List.mem_singleton.mp h
      exact keeps_pass hf hl
  | closing ch =>
      cases List.mem_singleton.mp h
      exact keeps_closing hf hl
  | stop =>
      cases List.mem_singleton.mp h
      exact keeps_stop hf

end Own

/-! ## Interference -/

/-- What any step leaves alone: channels are never reused, and a pass starts
only in the loop that owns `reconnectDone`. -/
private theorem step_frame {f f' : Flight} {th : Thread} {ths : List Thread}
    (h : (f', ths) ∈ step f th) :
    f.nextChan ≤ f'.nextChan ∧
      (∀ ch < f.nextChan, f.reconnectDone ≠ some ch → f'.reconnectDone ≠ some ch) ∧
      (f'.started = f.started ∨ th.isLoop = true) := by
  cases th with
  | trigger =>
      cases List.mem_singleton.mp h
      unfold Flight.runReconnect
      split
      · exact ⟨Nat.le_succ _, fun _ _ hne => hne, Or.inl rfl⟩
      · split
        · exact ⟨Nat.le_succ _, fun _ _ hne => hne, Or.inl rfl⟩
        · refine ⟨Nat.le_succ _, fun ch hch _ hnew => ?_, Or.inl rfl⟩
          rw [Option.some.injEq] at hnew
          omega
  | top ch =>
      cases List.mem_singleton.mp h
      refine ⟨?_, ?_, Or.inr rfl⟩
      · unfold Flight.next
        split <;> [skip; split] <;> exact Nat.le_refl _
      · intro ch' _ hne
        unfold Flight.next
        split
        · simp
        · split
          · exact hne
          · simp
  | pass ch n =>
      cases List.mem_singleton.mp h
      exact ⟨Nat.le_refl _, fun _ _ hne => hne, Or.inl rfl⟩
  | closing ch =>
      cases List.mem_singleton.mp h
      exact ⟨Nat.le_refl _, fun _ _ hne => hne, Or.inl rfl⟩
  | stop =>
      cases List.mem_singleton.mp h
      unfold Flight.stop
      split <;> exact ⟨Nat.le_refl _, fun _ _ hne => hne, Or.inl rfl⟩

/-- **Step lemma**, for a thread that another one interferes with. -/
theorem local_interference {f f' : Flight} {a b : Thread} {ths : List Thread}
    (hb : Local f b)
    (hpair : ∀ i, (outline.wt i a : Int) + outline.wt i b ≤ outline.val i f)
    (h : (f', ths) ∈ step f a) : Local f' b := by
  obtain ⟨hchan, hcur, hstart⟩ := step_frame h
  cases b with
  | trigger => trivial
  | top ch => exact Nat.lt_of_lt_of_le hb hchan
  | pass ch n =>
      obtain ⟨hch, hn, hpos⟩ := hb
      refine ⟨Nat.lt_of_lt_of_le hch hchan, ?_, hpos⟩
      rcases hstart with hstart | hloop
      · rw [hstart]
        exact hn
      · -- a second loop would own `reconnectDone` as well
        have hown := hpair .loop
        have hle : f.reconnectDone.isSome.toNat ≤ 1 := Bool.toNat_le _
        have hself : (Thread.pass ch n).isLoop = true := rfl
        simp only [outline, hloop, hself, Bool.toNat_true] at hown
        omega
  | closing ch => exact ⟨Nat.lt_of_lt_of_le hb.1 hchan, hcur ch hb.1 hb.2⟩
  | stop => trivial

theorem outline_valid : outline.Valid prog where
  entry f th _ h := by
    simp only [prog, decide_eq_true_eq] at h
    rcases h with rfl | rfl
    · exact ⟨trivial, fun i => by cases i <;> rfl⟩
    · exact ⟨trivial, fun i => by cases i <;> rfl⟩
  own _ _ _ _ hf hl hb h := keeps_step hf hl hb h
  other _ _ _ _ _ _ _ hb hpair h := local_interference hb hpair h

theorem outline_initial : outline.Holds initial := by
  refine ⟨⟨by simp [initial, Flight.init], by simp [initial, Flight.init], ?_,
    by simp [initial, Flight.init], by simp [initial, Flight.init],
    by simp [initial, Flight.init], by simp [initial, Flight.init]⟩, by simp [initial], ?_⟩
  · intro n hpos hle
    simp only [initial, Flight.init] at hle
    omega
  · intro i
    cases i <;> rfl

/-! ## Whole runs -/

/-- The invariant holds in every reachable configuration. -/
theorem inv_reaches {c : Conf Flight Thread} (h : prog.Reaches initial c) : Inv c.shared :=
  (outline_valid.holds_run outline_initial h).shared

/-- The number of threads that execute a pass. -/
def passes (c : Conf Flight Thread) : Nat := c.pool.countP Thread.inPass

/-- **Reconnect triggers are single-flight and never lost.**  At most one pass
is executing; the channel a call returned is closed only after the client was
closed or a pass that started after the call has finished; and no pass starts
after `stop` has closed `done`. -/
theorem reconnect_single_flight (c : Conf Flight Thread) (h : prog.Reaches initial c) :
    passes c ≤ 1 ∧
      (∀ k ∈ c.shared.calls, k.chan ∈ c.shared.closedChans →
        c.shared.done = true ∨ ∃ n ∈ c.shared.finished, k.started < n) ∧
      (c.shared.done = true → c.shared.started = c.shared.startedAtStop) := by
  have hc := outline_valid.holds_run outline_initial h
  refine ⟨?_, ?_, hc.shared.stopped⟩
  · have hpass := (hc.ledger .pass).trans (total_toNat Thread.inPass c.pool)
    have hidle := hc.val_nonneg .idle
    have hle : c.shared.reconnectDone.isSome.toNat ≤ 1 := Bool.toNat_le _
    simp only [outline] at hpass hidle
    unfold passes
    omega
  · intro k hk hclosed
    exact hc.shared.served k hk (hc.shared.closedFresh k.chan hclosed).2

/-- A trigger that lands during a pass shares the loop's channel and gets a pass
of its own before that channel is closed. -/
theorem reconnect_single_flight_two_triggers :
    ∃ c, prog.Reaches initial c ∧ c.shared.calls = [⟨0, 1⟩, ⟨0, 0⟩] ∧
      c.shared.closedChans = [0] ∧ c.shared.finished = [2, 1] ∧
      (∀ k ∈ c.shared.calls, k.chan ∈ c.shared.closedChans →
        c.shared.done = true ∨ ∃ n ∈ c.shared.finished, k.started < n) := by
  have hrun : prog.run initial
      [.start .trigger, .fire 0 0, .fire 0 0, .start .trigger, .fire 1 0, .fire 0 0, .fire 0 0,
        .fire 0 0, .fire 0 0, .fire 0 0] =
      some ⟨⟨false, none, false, 2, [0], 2, 0, [2, 1], [⟨0, 1⟩, ⟨0, 0⟩]⟩, []⟩ := rfl
  exact ⟨_, ⟨_, hrun⟩, rfl, rfl, rfl, (reconnect_single_flight _ ⟨_, hrun⟩).2.1⟩

end Getty.Transport.SingleFlight
