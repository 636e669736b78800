import Getty.Verified.Progress
import Getty.Transport.ServerClose
import Mathlib.Logic.Relation

/-!
# `server.Close` returns

A goroutine of the server waits for `s.lock`, for the body of the `once`, in `Close` for the
wait group, and in `accept` and net/http for a peer.  Nobody who holds `s.lock` waits for
anything but the deadline of `Shutdown`; the listeners are closed outside.  So the body of the
`once` is never held up, and when it has closed the listeners, no event loop waits for a peer
any more: whoever waits in `Close` waits for somebody who can go on, even if no peer does
anything.

When `done` is closed an accept loop goes round at most once more, whatever the schedule,
and a UDP event loop is on its way out anyway.  An http server accepts connections and
requests until `Shutdown` is called, and each of them takes a few steps.

## Main results

* `close_waits_for_ready` — a `Close` call that cannot go on waits for a thread that can.
* `lowers` — on a closed server every step is one of a bounded number.
* `server_close_returns` — `Close` returns from every reachable configuration, also when the
  peers are silent.
-/

namespace Getty.Transport.Server.Progress

open Getty.Verified.ThreadPool

/-! ## Silent peers -/

/-- The thread waits for a peer: `Accept` on an open listener, also inside `Serve`, and a
connection between two requests that `Shutdown` has not closed. -/
def awaits (s : Shared) : Thread → Bool
  | .loop (.accept _) => s.streamListener = some ⟨false⟩
  | .loop .serve => s.shutdown = false ∧ s.streamListener = some ⟨false⟩
  | .conn .idle => !s.shutdown
  | _ => false

/-- The server while no peer connects or sends a request. -/
def quiet : Prog Shared Thread where
  entry := entry
  step s a := if awaits s a then [] else step s a

section Quiet

variable {s s' : Shared} {a : Thread} {bs : List Thread} {c c' : Conf Shared Thread}

theorem quiet_step (h : awaits s a = false) : quiet.step s a = step s a := by
  simp [quiet, h]

theorem mem_quiet_step (h : (s', bs) ∈ quiet.step s a) :
    awaits s a = false ∧ (s', bs) ∈ step s a := by
  cases ha : awaits s a with
  | false => exact ⟨rfl, quiet_step ha ▸ h⟩
  | true => simp [quiet, ha] at h

/-- Silence is one of the things that may happen. -/
theorem exec_of_quiet {m : Move Thread} (h : quiet.exec c m = some c') :
    ∃ m, prog.exec c m = some c' := by
  rcases exec_cases h with ⟨a, ha, rfl⟩ | ⟨l, a, r, s', bs, hpool, hstep, rfl⟩
  · refine ⟨.start a, ?_⟩
    simp only [Prog.exec]
    exact if_pos ha
  · obtain ⟨m, hm⟩ := exec_fire (p := prog) l r (mem_quiet_step hstep).2
    exact ⟨m, by rw [← hm, ← hpool]⟩

private theorem reaches_of_quiet (h : quiet.Reaches c c') : prog.Reaches c c' := by
  refine h.induct (fun d => prog.Reaches c d) ⟨[], rfl⟩ fun d d' m hd hm => ?_
  obtain ⟨m', hm'⟩ := exec_of_quiet hm
  exact hd.snoc hm'

/-- A closed server stays closed. -/
theorem done_exec {m : Move Thread} (h : prog.exec c m = some c')
    (hdone : c.shared.done = true) : c'.shared.done = true := by
  rcases exec_cases h with ⟨a, -, rfl⟩ | ⟨l, a, r, s', bs, -, hstep, rfl⟩
  · exact hdone
  · exact (step_done hstep).2 hdone

end Quiet

/-! ## Who waits for whom -/

/-- The next step of the thread takes `s.lock`. -/
def locks : Thread → Bool
  | .close .lock => true
  | .runEventLoop .publish => true
  | .runEventLoop .register => true
  | .loop .setServer => true
  | _ => false

/-- Thread `a` waits for something that thread `b` has to do first. -/
inductive Waits (s : Shared) : Thread → Thread → Prop where
  | lock {a b : Thread} (ha : locks a = true) (hl : s.locked = true) (hb : b.holdsLock = true) :
      Waits s a b
  | body {b : Thread} (hrun : s.once = .running) (hb : b.inBody = true) :
      Waits s (.close .doOnce) b
  | wg {hasty : Bool} {b : Thread} (hwg : s.wg ≠ 0) (hb : b.looping = true) :
      Waits s (.close (.wait hasty)) b
  -- an open listener is closed by the body of the `once`
  | listener {a b : Thread} (ha : awaits s a = true) (hrun : s.once = .running)
      (hb : b.inBody = true) : Waits s a b

section Waiting

variable {s : Shared} {a b : Thread} {t : EndPointType} {c : Conf Shared Thread}

theorem locked_of_nil {l : Outcomes} (hl : l ≠ [])
    (h : (if s.locked = true then [] else l) = []) : s.locked = true := by
  by_contra hfree
  rw [if_neg hfree] at h
  exact hl h

/-- What a `Close` call that cannot take a step waits for. -/
theorem close_blocked {pc : ClosePc} (h : step s (.close pc) = []) :
    (pc = .lock ∧ s.locked = true) ∨ (pc = .doOnce ∧ s.once = .running) ∨
      ∃ hasty, pc = .wait hasty ∧ s.wg ≠ 0 := by
  cases pc with
  | lock => exact Or.inl ⟨rfl, locked_of_nil (List.cons_ne_nil _ _) h⟩
  | doOnce =>
      simp only [step, closeStep] at h
      split at h
      · cases h
      · next hrun => exact Or.inr (Or.inl ⟨rfl, hrun⟩)
      · cases h
  | wait hasty =>
      refine Or.inr (Or.inr ⟨hasty, rfl, fun hwg => ?_⟩)
      simp [step, closeStep, hwg] at h
  | select | drain =>
      simp only [step, closeStep] at h
      split at h <;> cases h
  | _ => simp [step, closeStep] at h

/-- An event loop waits for nobody but the holder of `s.lock`. -/
private theorem loop_blocked (hloop : b.looping = true) (h : step s b = []) :
    locks b = true ∧ s.locked = true := by
  cases b with
  | loop pc =>
      cases pc with
      | setServer => exact ⟨rfl, locked_of_nil (List.cons_ne_nil _ _) h⟩
      | check | backoff | accept | inNewSession | run | serve =>
          simp only [step, loopStep] at h
          (repeat' split at h) <;> cases h
      | _ => simp [step, loopStep] at h
  | runEventLoop pc =>
      cases pc with
      | launch => simp [step, runStep] at h
      | _ => cases hloop
  | _ => cases hloop

private theorem holder_ready (h : a.holdsLock = true) : quiet.step s a ≠ [] := by
  cases a with
  | close pc =>
      rw [quiet_step rfl]
      intro hno
      rcases close_blocked hno with ⟨rfl, -⟩ | ⟨rfl, -⟩ | ⟨hasty, rfl, -⟩ <;> cases h
  | runEventLoop pc =>
      rw [quiet_step rfl]
      cases pc with
      | store | add => exact List.cons_ne_nil _ _
      | _ => cases h
  | _ => cases h

theorem lock_ready (h : prog.Reaches (initial t) c) (ha : locks a = true)
    (hl : c.shared.locked = true) :
    ∃ b ∈ c.pool, Relation.ReflTransGen (Waits c.shared) a b ∧ quiet.step c.shared b ≠ [] := by
  have hledger := ((holds_reaches h).ledger .lock).trans (total_toNat Thread.holdsLock c.pool)
  simp only [outline, hl, Bool.toNat_true] at hledger
  obtain ⟨b, hb, hin⟩ := List.countP_pos_iff.mp (show 0 < c.pool.countP Thread.holdsLock by omega)
  exact ⟨b, hb, .single (.lock ha hl hin), holder_ready hin⟩

/-- While the body of the `once` runs, whoever runs it is not held up. -/
theorem body_ready (h : prog.Reaches (initial t) c) (hrun : c.shared.once = .running) :
    ∃ b ∈ c.pool, b.inBody = true ∧ ∃ d ∈ c.pool,
      Relation.ReflTransGen (Waits c.shared) b d ∧ quiet.step c.shared d ≠ [] := by
  have hledger := ((holds_reaches h).ledger .body).trans (total_toNat Thread.inBody c.pool)
  simp only [outline, hrun, decide_true, Bool.toNat_true] at hledger
  obtain ⟨b, hb, hin⟩ := List.countP_pos_iff.mp (show 0 < c.pool.countP Thread.inBody by omega)
  refine ⟨b, hb, hin, ?_⟩
  cases b with
  | close pc =>
      by_cases hready : step c.shared (.close pc) = []
      · rcases close_blocked hready with ⟨rfl, hl⟩ | ⟨rfl, -⟩ | ⟨hasty, rfl, -⟩
        · exact lock_ready h rfl hl
        · cases hin
        · cases hin
      · exact ⟨_, hb, .refl, by rwa [quiet_step rfl]⟩
  | _ => cases hin

/-- An event loop waits for a peer only as long as its listener is open. -/
private theorem open_of_awaits (hb : b.looping = true) (hpeer : awaits s b = true) :
    s.listenersClosed = false := by
  have hopen : s.streamListener = some ⟨false⟩ := by
    cases b with
    | loop pc =>
        cases pc with
        | accept delay => exact of_decide_eq_true hpeer
        | serve => exact (of_decide_eq_true hpeer).2
        | _ => cases hpeer
    | runEventLoop pc => cases hpeer
    | _ => cases hb
  simp [Shared.listenersClosed, hopen]

/-- On a closed server an event loop waits for a peer only while the body of the `once`
runs. -/
private theorem loop_ready (h : prog.Reaches (initial t) c) (hdone : c.shared.done = true)
    (hb : b ∈ c.pool) (hloop : b.looping = true) :
    ∃ d ∈ c.pool, Relation.ReflTransGen (Waits c.shared) b d ∧ quiet.step c.shared d ≠ [] := by
  have hinv := (holds_reaches h).shared
  cases hpeer : awaits c.shared b with
  | false =>
      by_cases hready : step c.shared b = []
      · obtain ⟨hlock, hl⟩ := loop_blocked hloop hready
        exact lock_ready h hlock hl
      · exact ⟨b, hb, .refl, by rwa [quiet_step hpeer]⟩
  | true =>
      have hopen := open_of_awaits hloop hpeer
      have hrun : c.shared.once = .running := by
        cases honce : c.shared.once with
        | fresh =>
            rw [hinv.fresh honce] at hdone
            cases hdone
        | running => rfl
        | finished =>
            rw [(hinv.finished honce).2] at hopen
            cases hopen
      obtain ⟨d, -, hin, e, he, hde, hready⟩ := body_ready h hrun
      exact ⟨e, he, .head (.listener hpeer hrun hin) hde, hready⟩

/-- **A `Close` call that cannot go on waits for a thread that can**, directly or through
others, and that needs no peer to do so. -/
theorem close_waits_for_ready {pc : ClosePc} (h : prog.Reaches (initial t) c)
    (ha : .close pc ∈ c.pool) :
    ∃ b ∈ c.pool, Relation.ReflTransGen (Waits c.shared) (.close pc) b ∧
      quiet.step c.shared b ≠ [] := by
  by_cases hready : step c.shared (.close pc) = []
  · rcases close_blocked hready with ⟨rfl, hl⟩ | ⟨rfl, hrun⟩ | ⟨hasty, rfl, hwg⟩
    · exact lock_ready h rfl hl
    · obtain ⟨b, -, hin, d, hd, hbd, hdready⟩ := body_ready h hrun
      exact ⟨d, hd, .head (.body hrun hin) hbd, hdready⟩
    · have hc := holds_reaches h
      have hledger := (hc.ledger .wg).trans (total_toNat Thread.looping c.pool)
      simp only [outline] at hledger
      obtain ⟨b, hb, hin⟩ := List.countP_pos_iff.mp
        (show 0 < c.pool.countP Thread.looping by omega)
      obtain ⟨d, hd, hbd, hdready⟩ := loop_ready h (hc.loc _ ha).1 hb hin
      exact ⟨d, hd, .head (.wg hwg hin) hbd, hdready⟩
  · exact ⟨_, ha, .refl, by rwa [quiet_step rfl]⟩

end Waiting

/-! ## How far everybody has to go -/

/-- The number of steps that a thread still takes on a closed server, with the event loop
that it starts; for net/http, until it has to do with a peer. -/
def rank : Thread → Nat
  | .close .select => 12
  | .close .doOnce => 11
  | .close .closeDone => 10
  | .close .lock => 9
  | .close .shutdown => 8
  | .close .drain => 7
  | .close .snapshot => 6
  | .close (.closeStream _ _) => 5
  | .close (.closePkt _) => 4
  | .close .finish => 3
  | .close (.wait _) => 1
  | .runEventLoop .listen => 14
  | .runEventLoop .bind => 13
  | .runEventLoop .publish => 12
  | .runEventLoop .store => 11
  | .runEventLoop .register => 10
  | .runEventLoop .add => 9
  | .runEventLoop .launch => 8
  | .loop (.backoff _) => 7
  | .loop (.accept _) => 6
  | .loop (.newSession _) => 5
  | .loop (.inNewSession _) => 4
  | .loop .setServer => 4
  | .loop .startServe => 3
  | .loop .run => 3
  | .loop (.check _) => 2
  | .loop .serve => 2
  | .loop .exit => 1
  | .conn .method => 7
  | .conn .isClosed => 6
  | .conn .upgrade => 5
  | .conn .sameAddr => 4
  | .conn .newSession => 3
  | .conn .inNewSession => 2
  | .conn .run => 1
  | .conn .idle => 1

/-- net/http, which goes on as long as there are peers. -/
def http : Thread → Bool
  | .conn _ => true
  | .loop .serve => true
  | _ => false

section Ends

variable {s s' : Shared} {a : Thread} {bs : List Thread} {t : EndPointType}
  {c : Conf Shared Thread}

private theorem lowers_close {pc : ClosePc} (h : (s', bs) ∈ closeStep s pc) :
    total rank bs < rank (.close pc) := by
  cases pc with
  | select | drain =>
      simp only [closeStep] at h
      split at h <;> cases List.mem_singleton.mp h <;> simp [rank]
  | doOnce =>
      simp only [closeStep] at h
      split at h
      · cases List.mem_singleton.mp h
        decide
      · cases h
      · cases List.mem_singleton.mp h
        decide
  | lock =>
      obtain ⟨-, h⟩ := mem_blocked h
      cases h
      split <;> decide
  | wait hasty =>
      obtain ⟨-, h⟩ := mem_guarded h
      cases h
      simp [rank]
  | _ =>
      cases List.mem_singleton.mp h
      simp [rank]

private theorem lowers_conn {pc : ConnPc} (hdone : s.done = true) (ha : awaits s (.conn pc) = false)
    (h : (s', bs) ∈ connStep s pc) : total rank bs < rank (.conn pc) := by
  cases pc with
  | idle =>
      have hshut : s.shutdown = true := by simpa [awaits] using ha
      simp only [connStep, hshut, if_true] at h
      cases List.mem_singleton.mp h
      decide
  | isClosed =>
      simp only [connStep, hdone, if_true] at h
      cases List.mem_singleton.mp h
      decide
  | newSession | run =>
      cases List.mem_singleton.mp h
      decide
  | _ => rcases List.mem_pair.mp h with h | h <;> cases h <;> decide

/-- **On a closed server every step gets closer to the end**, but for those of net/http that
a peer has caused. -/
theorem lowers (hdone : s.done = true) (ha : awaits s a = false ∨ http a = false)
    (h : (s', bs) ∈ step s a) : total rank bs < rank a := by
  cases a with
  | close pc => exact lowers_close h
  | conn pc => exact lowers_conn hdone (ha.resolve_right (by simp [http])) h
  | runEventLoop pc =>
      cases pc with
      | listen =>
          simp only [step, runStep, hdone, if_true] at h
          cases List.mem_singleton.mp h
          decide
      | bind => rcases List.mem_pair.mp h with h | h <;> cases h <;> decide
      | publish | register =>
          simp only [step, runStep, hdone, if_true] at h
          split at h
          · cases h
          · cases List.mem_singleton.mp h
            decide
      | store | add =>
          cases List.mem_singleton.mp h
          decide
      | launch =>
          cases List.mem_singleton.mp h
          cases s.endPointType <;> decide
  | loop pc =>
      cases pc with
      | check delay =>
          simp only [step, loopStep, hdone, if_true] at h
          cases List.mem_singleton.mp h
          simp [rank]
      | backoff delay =>
          simp only [step, loopStep, hdone, if_true] at h
          rcases List.mem_pair.mp h with h | h <;> cases h <;> simp [rank]
      | accept delay =>
          simp only [step, loopStep] at h
          split at h
          · rcases List.mem_pair.mp h with h | h <;> cases h <;> simp [rank]
          · cases List.mem_singleton.mp h
            simp [rank]
      | inNewSession delay =>
          simp only [step, loopStep] at h
          split at h <;> rcases List.mem_pair.mp h with h | h <;> cases h <;> simp [rank]
      | run =>
          simp only [step, loopStep] at h
          split at h <;> cases List.mem_singleton.mp h <;> simp [rank]
      | setServer =>
          simp only [step, loopStep] at h
          split at h
          · cases h
          · cases List.mem_singleton.mp h
            decide
      | serve =>
          have hpeer := ha.resolve_right (by simp [http])
          simp only [step, loopStep, if_neg (of_decide_eq_false hpeer)] at h
          cases List.mem_singleton.mp h
          decide
      | newSession | startServe | exit =>
          cases List.mem_singleton.mp h
          simp [rank]

/-! ## Closing the server -/

/-- A `Close` call gets as far as closing `done`, or the call that is already in the body of
the `once` does. -/
private theorem reaches_done (h : prog.Reaches (initial t) c) (hclose : .close .select ∈ c.pool) :
    ∃ d, quiet.Reaches c d ∧ d.shared.done = true := by
  have hc := holds_reaches h
  cases hdone : c.shared.done with
  | true => exact ⟨c, ⟨[], rfl⟩, hdone⟩
  | false =>
      cases honce : c.shared.once with
      | fresh =>
          have hselect : (c.shared, [.close .doOnce]) ∈ quiet.step c.shared (.close .select) := by
            rw [quiet_step rfl]
            simp [step, closeStep, hdone]
          obtain ⟨l, r, hfirst⟩ := Prog.Reaches.fire (p := quiet) hclose hselect
          have honce' : ({ c.shared with once := .running }, [.close .closeDone]) ∈
              quiet.step c.shared (.close .doOnce) := by
            rw [quiet_step rfl]
            simp [step, closeStep, honce]
          obtain ⟨l', r', hsecond⟩ := Prog.Reaches.fire (p := quiet) (a := .close .doOnce)
            (c := ⟨c.shared, l ++ [.close .doOnce] ++ r⟩) (by simp) honce'
          obtain ⟨l'', r'', hthird⟩ := Prog.Reaches.fire (p := quiet) (a := .close .closeDone)
            (c := ⟨{ c.shared with once := .running }, l' ++ [.close .closeDone] ++ r'⟩) (by simp)
            (List.mem_singleton.mpr rfl)
          exact ⟨_, (hfirst.trans hsecond).trans hthird, rfl⟩
      | running =>
          have hledger := (hc.ledger .body).trans (total_toNat Thread.inBody c.pool)
          simp only [outline, honce, decide_true, Bool.toNat_true] at hledger
          obtain ⟨b, hb, hin⟩ := List.countP_pos_iff.mp
            (show 0 < c.pool.countP Thread.inBody by omega)
          -- only before `close(s.done)` is the body running on an open server
          have hloc := hc.loc b hb
          have hopen : c.shared.entered = false := hc.shared.open (by simp [hdone])
          have hbody : b = .close .closeDone := by
            cases b with
            | close pc => cases pc <;> simp_all [outline, Local, Thread.inBody]
            | _ => cases hin
          subst hbody
          obtain ⟨l, r, hfire⟩ := Prog.Reaches.fire (p := quiet) hb (List.mem_singleton.mpr rfl)
          exact ⟨_, hfire, rfl⟩
      | finished =>
          rw [hc.shared.entered (hc.shared.finished honce).1] at hdone
          cases hdone

/-- What a silent schedule keeps. -/
theorem quiet_keeps {c' : Conf Shared Thread} {m : Move Thread}
    (h : prog.Reaches (initial t) c ∧ c.shared.done = true) (hm : quiet.exec c m = some c') :
    prog.Reaches (initial t) c' ∧ c'.shared.done = true := by
  obtain ⟨m', hm'⟩ := exec_of_quiet hm
  exact ⟨h.1.snoc hm', done_exec hm' h.2⟩

/-- **On a closed server every `Close` call comes to its end**, whether or not there are
peers. -/
theorem closes_end (h : prog.Reaches (initial t) c) (hdone : c.shared.done = true) :
    ∃ d, quiet.Reaches c d ∧ d.shared.done = true ∧ ∀ pc, .close pc ∉ d.pool := by
  have hmove : ∀ c, (prog.Reaches (initial t) c ∧ c.shared.done = true) →
      ¬ (∀ pc, .close pc ∉ c.pool) → ∃ m c', quiet.exec c m = some c' ∧
        (prog.Reaches (initial t) c' ∧ c'.shared.done = true) ∧
        (total rank c'.pool).toNat < (total rank c.pool).toNat := by
    intro c hc hgoal
    obtain ⟨pc, hpc⟩ : ∃ pc, .close pc ∈ c.pool := by
      by_contra hnone
      exact hgoal fun pc hpc => hnone ⟨pc, hpc⟩
    obtain ⟨b, hb, -, hready⟩ := close_waits_for_ready hc.1 hpc
    obtain ⟨⟨s', bs⟩, hmem⟩ := List.exists_mem_of_ne_nil _ hready
    have hlt := lowers hc.2 (.inl (mem_quiet_step hmem).1) (mem_quiet_step hmem).2
    obtain ⟨l, r, hlr⟩ := List.append_of_mem hb
    obtain ⟨m, hm⟩ := exec_fire l r hmem
    have hmove : quiet.exec c m = some ⟨s', l ++ bs ++ r⟩ := by rw [← hm, ← hlr]
    refine ⟨m, _, hmove, quiet_keeps hc hmove, ?_⟩
    have hpos := total_nonneg rank (l ++ bs ++ r)
    rw [hlr]
    simp only [total_append, total_cons] at hpos ⊢
    omega
  obtain ⟨d, hd, hinv, hnone⟩ := reaches_of_measure _ _ _ hmove ⟨h, hdone⟩
  exact ⟨d, hd, hinv.2, hnone⟩

/-- The threads that are started have a rank of at most 12. -/
theorem rank_entry (s : Shared) (a : Thread) (h : entry s a = true) : rank a ≤ 12 := by
  cases a with
  | close pc =>
      cases pc with
      | select => exact Nat.le_refl _
      | _ => cases h
  | _ => cases h

/-- **On a closed server every silent schedule is short.** -/
theorem quiet_short (h : prog.Reaches (initial t) c) (hdone : c.shared.done = true)
    {ms : List (Move Thread)} {c' : Conf Shared Thread} (hrun : quiet.run c ms = some c') :
    fires ms ≤ total rank c.pool + 12 * starts ms := by
  have hle := fires_le (p := quiet) rank (k := 12)
    (fun c => prog.Reaches (initial t) c ∧ c.shared.done = true)
    (fun _ _ _ => quiet_keeps) rank_entry ?_ ⟨h, hdone⟩ hrun
  · have hpos := total_nonneg rank c'.pool
    omega
  · intro c hc a ha s' bs hstep
    exact lowers hc.2 (.inl (mem_quiet_step hstep).1) (mem_quiet_step hstep).2

private theorem not_http (h : prog.Reaches (initial t) c) (ht : t.isWS = false) (ha : a ∈ c.pool) :
    http a = false := by
  have hloc := (holds_reaches h).loc a ha
  have hws : c.shared.endPointType.isWS = false := by
    rw [endPointType_reaches h]
    exact ht
  cases a with
  | conn pc =>
      simp only [outline, Local, hws] at hloc
      cases hloc
  | loop pc =>
      cases pc with
      | serve =>
          simp only [outline, Local, hws] at hloc
          cases hloc
      | _ => rfl
  | _ => rfl

/-- **On a closed TCP or UDP server every schedule is short**, whatever the peers do. -/
theorem schedule_short (h : prog.Reaches (initial t) c) (ht : t.isWS = false)
    (hdone : c.shared.done = true) {ms : List (Move Thread)} {c' : Conf Shared Thread}
    (hrun : prog.run c ms = some c') : fires ms ≤ total rank c.pool + 12 * starts ms := by
  have hle := fires_le (p := prog) rank (k := 12)
    (fun c => prog.Reaches (initial t) c ∧ c.shared.done = true)
    (fun c c' m hc hm => ⟨hc.1.snoc hm, done_exec hm hc.2⟩) rank_entry ?_
    ⟨h, hdone⟩ hrun
  · have hpos := total_nonneg rank c'.pool
    omega
  · intro c hc a ha s' bs hstep
    exact lowers hc.2 (.inr (not_http hc.1 ht ha)) hstep

end Ends

/-- **`server.Close` returns.**  In every reachable configuration, a `Close` call can take a
step, or it waits for `s.lock`, for the body of the `once` or for the wait group, and the
goroutine that it waits for, directly or through others, can take a step that needs no peer.
If `Close` is called now, it can return, with every other call of it, while the peers are
silent.  And once `done` is closed the number of steps is bounded under every schedule: on a
TCP or UDP server whatever the peers do, on a websocket server while they are silent. -/
theorem server_close_returns (t : EndPointType) (c : Conf Shared Thread)
    (h : prog.Reaches (initial t) c) :
    (∀ pc, .close pc ∈ c.pool → ∃ b ∈ c.pool,
      Relation.ReflTransGen (Waits c.shared) (.close pc) b ∧ quiet.step c.shared b ≠ []) ∧
      (∃ d, quiet.Reaches ⟨c.shared, c.pool ++ [.close .select]⟩ d ∧ d.shared.done = true ∧
        ∀ pc, .close pc ∉ d.pool) ∧
      (c.shared.done = true → ∀ ms c',
        quiet.run c ms = some c' ∨ (t.isWS = false ∧ prog.run c ms = some c') →
        fires ms ≤ total rank c.pool + 12 * starts ms) := by
  refine ⟨fun _ ha => close_waits_for_ready h ha, ?_, ?_⟩
  · have hcalled : prog.Reaches (initial t) ⟨c.shared, c.pool ++ [.close .select]⟩ :=
      h.snoc (m := .start (.close .select)) rfl
    obtain ⟨d, hd, hdone⟩ := reaches_done hcalled (by simp)
    obtain ⟨e, he, hend⟩ := closes_end (hcalled.trans (reaches_of_quiet hd)) hdone
    exact ⟨e, hd.trans he, hend⟩
  · rintro hdone ms c' (hrun | ⟨ht, hrun⟩)
    · exact quiet_short h hdone hrun
    · exact schedule_short h ht hdone hrun

/-- The accept loop waits for a peer and the second `Close` call for the accept loop, while
the first call is about to close the listener.  All three end, and so does a third call. -/
theorem server_close_returns_hasty :
    ∃ c, prog.Reaches (initial .tcpServer) c ∧
      c.pool = [.loop (.accept 0), .close (.closeStream true false), .close (.wait true)] ∧
      c.pool.map (fun a => (quiet.step c.shared a).length) = [0, 1, 0] ∧
      (∃ b ∈ c.pool, Relation.ReflTransGen (Waits c.shared) (.close (.wait true)) b ∧
        quiet.step c.shared b ≠ []) ∧
      (∃ d, quiet.Reaches ⟨c.shared, c.pool ++ [.close .select]⟩ d ∧ d.shared.done = true ∧
        ∀ pc, .close pc ∉ d.pool) ∧
      ∀ ms c', prog.run c ms = some c' → fires ms ≤ 12 + 12 * starts ms := by
  have hrun : ∃ c ∈ prog.run (initial .tcpServer) (List.flatten
      [List.replicate 8 (.fire 0 0), [.start (.close .select)], List.replicate 5 (.fire 1 0),
        [.start (.close .select), .fire 2 0]]),
      c.pool = [.loop (.accept 0), .close (.closeStream true false), .close (.wait true)] ∧
      c.pool.map (fun a => (quiet.step c.shared a).length) = [0, 1, 0] ∧
      c.shared.done = true := by
    decide +kernel
  obtain ⟨c, hc, hpool, hsteps, hdone⟩ := hrun
  obtain ⟨hwaits, hend, hshort⟩ := server_close_returns .tcpServer c ⟨_, hc⟩
  refine ⟨c, ⟨_, hc⟩, hpool, hsteps, hwaits _ (by simp [hpool]), hend, fun ms c' hms => ?_⟩
  have hle := hshort hdone ms c' (.inr ⟨rfl, hms⟩)
  have hrank : total rank c.pool = 12 := by
    rw [hpool]
    decide
  omega

end Getty.Transport.Server.Progress
