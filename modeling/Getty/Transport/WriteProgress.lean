import Getty.Verified.Progress
import Getty.Transport.WriteStream

/-!
# Every write call returns

`WriteBytes`, `WriteBytesArray`, `WritePkg` and `Send` of a TCP session take `packetLock`,
and on a connection with a codec they take the codec writer's lock inside it.  Both are
taken in this order and neither is taken twice by one call, so there is no deadlock:
whoever is in the codec can go on, and otherwise whoever holds `packetLock` can.  It does
not matter which waiting call a free `packetLock` is given to, so the argument also covers
a `sync.RWMutex` that prefers writers.

Nothing here depends on what the calls write, but a write of the connection neither fails
nor blocks.  The locks are followed on their own, for every connection and also for
batches that other calls interrupt.

## Main results

* `locks_valid` — `packetLock` and the codec lock belong to the calls that hold them.
* `holder_can_step` — a call that holds `packetLock` can step, or one in the codec can.
* `writers_always_return` — every run is short, and no run gets stuck before its end.
-/

namespace Getty.Transport.WriteStream

open Getty.Verified.ThreadPool

/-! ## The locks -/

/-- The ledgers of the two locks. -/
inductive LockLedger where
  | readers
  | writer
  | codec
  deriving Repr, DecidableEq

/-- The locks and their holders. -/
def locks (cfg : Cfg) : Outline Shared Thread LockLedger where
  shared s := s.wlock = true → s.rlocks = 0
  loc _ th := th.pc.inCodec = true → cfg.codec = true
  val
    | .readers, s => s.rlocks
    | .writer, s => s.wlock.toNat
    | .codec, s => s.codecLock.toNat
  wt
    | .readers, th => (th.pc.holds && !th.call.plan.exclusive).toNat
    | .writer, th => (th.pc.holds && th.call.plan.exclusive).toNat
    | .codec, th => th.pc.inCodec.toNat

/-- What a step does to the locks, for the call that takes it. -/
abbrev KeepsLocks (cfg : Cfg) (s : Shared) (th : Thread) (s' : Shared) (ths : List Thread) :
    Prop :=
  (locks cfg).Keeps s th s' ths

section Steps

variable {cfg : Cfg} {s : Shared} {th : Thread}

/-- A step that leaves the locks alone and the call on the same side of both. -/
theorem keepsLocks_goto {s' : Shared} {th' : Thread} (hs : (locks cfg).shared s)
    (hl : (locks cfg).loc s th) (hr : s'.rlocks = s.rlocks) (hw : s'.wlock = s.wlock)
    (hc : s'.codecLock = s.codecLock) (hcall : th'.call = th.call)
    (hholds : th'.pc.holds = th.pc.holds) (hin : th'.pc.inCodec = th.pc.inCodec) :
    KeepsLocks cfg s th s' [th'] := by
  refine ⟨?_, ?_, ?_⟩
  · show s'.wlock = true → s'.rlocks = 0
    rw [hw, hr]
    exact hs
  · intro b hb hb'
    rw [List.mem_singleton.mp hb, hin] at hb'
    exact hl hb'
  · intro i
    cases i <;> simp [locks, hr, hw, hc, hcall, hholds, hin]

private theorem keepsLocks_lock (hpc : th.pc = .lock) {s' : Shared} {ths : List Thread}
    (h : (s', ths) ∈ lockStep s th) : KeepsLocks cfg s th s' ths := by
  unfold lockStep at h
  split at h
  · next hx =>
      split at h
      · next hfree =>
          cases List.mem_singleton.mp h
          refine ⟨fun _ => hfree.2, by simp [locks], fun i => ?_⟩
          cases i <;> simp [locks, hpc, hx, hfree]
      · cases h
  · next hx =>
      split at h
      · cases h
      · next hfree =>
          cases List.mem_singleton.mp h
          refine ⟨fun hw => absurd hw hfree, by simp [locks], fun i => ?_⟩
          cases i <;> simp [locks, hpc, hx]

private theorem keepsLocks_unlock (hs : (locks cfg).shared s)
    (hb : ∀ i, ((locks cfg).wt i th : Int) ≤ (locks cfg).val i s) (hpc : th.pc = .send []) :
    KeepsLocks cfg s th (unlockStep s th) [] := by
  have hr := hb .readers
  have hw := hb .writer
  simp only [locks, hpc, holds_send, Bool.true_and] at hr hw
  cases hx : th.call.plan.exclusive with
  | true =>
      have hheld : s.wlock = true := by
        cases h : s.wlock with
        | true => rfl
        | false => simp [hx, h] at hw
      have h1 : (unlockStep s th).wlock = false := by simp [unlockStep, hx]
      have h2 : (unlockStep s th).rlocks = s.rlocks := by
        simp only [unlockStep, hx, if_true]
        split <;> rfl
      have h3 : (unlockStep s th).codecLock = s.codecLock := by
        simp only [unlockStep, hx, if_true]
        split <;> rfl
      refine ⟨fun h => by simp [h1] at h, by simp, fun i => ?_⟩
      cases i <;> simp [locks, hpc, hx, h1, h2, h3, hheld]
  | false =>
      rw [hx] at hr
      simp only [Bool.not_false, Bool.toNat_true, Nat.cast_one] at hr
      have h1 : (unlockStep s th).wlock = s.wlock := by
        simp only [unlockStep, hx, Bool.false_eq_true, if_false]
        split <;> rfl
      have h2 : (unlockStep s th).rlocks = s.rlocks - 1 := by
        simp only [unlockStep, hx, Bool.false_eq_true, if_false]
        split <;> rfl
      have h3 : (unlockStep s th).codecLock = s.codecLock := by
        simp only [unlockStep, hx, Bool.false_eq_true, if_false]
        split <;> rfl
      refine ⟨fun h => ?_, by simp, fun i => ?_⟩
      · rw [h1] at h
        rw [h2, hs h]
      · cases i with
        | readers =>
            simp only [locks, hpc, hx, h2, holds_send, total_nil]
            simp only [Bool.not_false, Bool.and_self, Bool.toNat_true, Nat.cast_one]
            omega
        | writer => simp [locks, hpc, hx, h1]
        | codec => simp [locks, hpc, h3]

private theorem keepsLocks_send (hs : (locks cfg).shared s) (hl : (locks cfg).loc s th) {p : Pkg}
    {todo : List Pkg} (hpc : th.pc = .send (p :: todo)) {s' : Shared} {ths : List Thread}
    (h : (s', ths) ∈ sendStep cfg s th p todo) : KeepsLocks cfg s th s' ths := by
  have hput : ∀ b, KeepsLocks cfg s th (put s th b).1 [(put s th b).2.goto (.send todo)] :=
    fun b => keepsLocks_goto hs hl put_rlocks put_wlock put_codecLock (by simp)
      (by rw [hpc]; rfl) (by rw [hpc]; rfl)
  unfold sendStep at h
  split at h
  · next hcfg =>
      split at h
      · cases h
      · next hfree =>
          cases List.mem_singleton.mp h
          refine ⟨hs, fun b hb _ => hcfg, fun i => ?_⟩
          cases i <;> simp [locks, hpc, hfree]
  · split at h
    · cases List.mem_singleton.mp h
      exact hput _
    · split at h
      · cases List.mem_singleton.mp h
        exact hput _
      · cases List.mem_singleton.mp h
        exact keepsLocks_goto hs hl rfl rfl rfl rfl (by rw [hpc]; rfl) (by rw [hpc]; rfl)

/-- **Step lemma**, for the call that takes the step. -/
theorem keepsLocks_step (hs : (locks cfg).shared s) (hl : (locks cfg).loc s th)
    (hb : ∀ i, ((locks cfg).wt i th : Int) ≤ (locks cfg).val i s) {s' : Shared}
    {ths : List Thread} (h : (s', ths) ∈ step cfg s th) : KeepsLocks cfg s th s' ths := by
  unfold step at h
  split at h
  · next hpc => exact keepsLocks_lock hpc h
  · next hpc =>
      cases List.mem_singleton.mp h
      exact keepsLocks_unlock hs hb hpc
  · next hpc => exact keepsLocks_send hs hl hpc h
  · next hpc =>
      cases List.mem_singleton.mp h
      exact keepsLocks_goto hs hl rfl rfl rfl rfl (by rw [hpc]; rfl) (by rw [hpc]; rfl)
  · next hpc =>
      cases List.mem_singleton.mp h
      exact keepsLocks_goto hs hl put_rlocks put_wlock put_codecLock (by simp)
        (by rw [hpc]; rfl) (by rw [hpc]; rfl)
  · next todo hpc =>
      cases List.mem_singleton.mp h
      have hheld : s.codecLock = true := by
        have hc := hb .codec
        cases h : s.codecLock with
        | true => rfl
        | false => simp [locks, hpc, h] at hc
      refine ⟨hs, by simp [locks], fun i => ?_⟩
      cases i <;> simp [locks, hpc, hheld]
  · next hpc =>
      cases List.mem_singleton.mp h
      exact keepsLocks_goto hs hl put_rlocks put_wlock put_codecLock (by simp)
        (by rw [hpc]; rfl) (by rw [hpc]; rfl)

end Steps

theorem locks_valid (cfg : Cfg) : (locks cfg).Valid (prog cfg) where
  entry _ _ _ h := by cases h
  own _ _ _ _ hs hl hb h := keepsLocks_step hs hl hb h
  other _ _ _ _ _ _ _ hb _ _ := hb

theorem locks_initial (cfg : Cfg) (calls : List Call) : (locks cfg).Holds (initial calls) := by
  have hzero : ∀ i, total ((locks cfg).wt i) (calls.map Thread.start) = 0 := by
    intro i
    apply total_map_eq_zero
    intro c _
    cases i <;> rfl
  refine ⟨by simp [locks, initial, Shared.init], ?_, ?_⟩
  · intro th hth
    obtain ⟨c, -, rfl⟩ := List.mem_map.mp hth
    simp [locks, Thread.start]
  · intro i
    rw [initial, hzero i]
    cases i <;> rfl

/-! ## No deadlock -/

/-- A call in the codec can step. -/
private theorem codec_can_step (cfg : Cfg) (s : Shared) {th : Thread} (h : th.pc.inCodec = true) :
    step cfg s th ≠ [] := by
  cases hpc : th.pc with
  | codec slices todo =>
      cases slices with
      | nil => simp [step, hpc]
      | cons b bs => simp [step, hpc]
  | _ => simp [hpc] at h

/-- **The holder can go on.**  If a call holds `packetLock`, then some call that holds
it can step: that one, or the one it waits for in the codec. -/
theorem holder_can_step {cfg : Cfg} {c : Conf Shared Thread} (hc : (locks cfg).Holds c)
    {th : Thread} (hth : th ∈ c.pool) (hh : th.pc.holds = true) :
    ∃ a ∈ c.pool, a.pc.holds = true ∧ step cfg c.shared a ≠ [] := by
  by_cases hstep : step cfg c.shared th = []
  · -- only a `conn.Send` on a connection with a codec blocks, while another call is in it
    have hlocked : c.shared.codecLock = true := by
      unfold step at hstep
      split at hstep
      · next hpc =>
          rw [hpc] at hh
          cases hh
      · simp at hstep
      · unfold sendStep at hstep
        split at hstep
        · split at hstep
          · next h => exact h
          · simp at hstep
        · split at hstep
          · simp at hstep
          · split at hstep <;> simp at hstep
      all_goals simp at hstep
    have hledger := hc.ledger .codec
    simp only [locks, hlocked, Bool.toNat_true, Nat.cast_one, total_toNat] at hledger
    have hpos : 0 < c.pool.countP fun a => a.pc.inCodec := by omega
    obtain ⟨a, ha, hin⟩ := List.countP_pos_iff.mp hpos
    have hholds : a.pc.holds = true := by
      cases hpc : a.pc with
      | codec _ _ => rfl
      | _ => simp [hpc] at hin
    exact ⟨a, ha, hholds, codec_can_step cfg c.shared hin⟩
  · exact ⟨th, hth, hh, hstep⟩

/-- When nobody holds `packetLock`, every waiting call may take it. -/
theorem waiter_can_step {cfg : Cfg} {c : Conf Shared Thread} (hc : (locks cfg).Holds c)
    (hidle : ∀ th ∈ c.pool, th.pc.holds = false) {th : Thread} (hth : th ∈ c.pool) :
    step cfg c.shared th ≠ [] := by
  have hr : c.shared.rlocks = 0 := by
    have hledger := hc.ledger .readers
    rw [total_eq_zero _ fun a ha => by simp [locks, hidle a ha]] at hledger
    simpa [locks] using hledger
  have hw : c.shared.wlock = false := by
    have hledger := hc.ledger .writer
    rw [total_eq_zero _ fun a ha => by simp [locks, hidle a ha]] at hledger
    simpa [locks] using hledger
  have hpc : th.pc = .lock := by
    have hnot := hidle th hth
    cases h : th.pc with
    | lock => rfl
    | _ => simp [h, Pc.holds] at hnot
  have hlock : lockStep c.shared th ≠ [] := by
    unfold lockStep
    split <;> simp [hr, hw]
  rw [step, hpc]
  exact hlock

/-! ## Termination -/

/-- The most steps a `conn.Send` takes: into the codec, one for each slice, and out. -/
def Pkg.work (p : Pkg) : Nat := p.slices.length + 2

/-- The most steps the sends of a call and the unlock after them take. -/
def todoWork (todo : List Pkg) : Nat := (todo.map Pkg.work).sum + 1

/-- The most steps a call still takes. -/
def Thread.work (th : Thread) : Nat :=
  match th.pc with
  | .lock => todoWork th.call.plan.sends + 1
  | .send todo => todoWork todo
  | .write slices todo => slices.length + 1 + todoWork todo
  | .codec slices todo => slices.length + 1 + todoWork todo

private theorem work_send_cons {th : Thread} {p : Pkg} {todo : List Pkg}
    (hpc : th.pc = .send (p :: todo)) :
    th.work = p.slices.length + 2 + todoWork todo := by
  simp only [Thread.work, hpc, todoWork, List.map_cons, List.sum_cons, Pkg.work]
  omega

/-- Every step of a call is one of its steps less. -/
theorem step_lowers (cfg : Cfg) : Lowers (prog cfg) Thread.work where
  entry _ _ := rfl
  step s th s' ths h := by
    simp only [prog] at h
    unfold step at h
    split at h
    · next hpc =>
        unfold lockStep at h
        split at h
        · split at h
          · cases List.mem_singleton.mp h
            simp [Thread.work, hpc]
          · cases h
        · split at h
          · cases h
          · cases List.mem_singleton.mp h
            simp [Thread.work, hpc]
    · next hpc =>
        cases List.mem_singleton.mp h
        simp [Thread.work, hpc, todoWork]
    · next hpc =>
        have hwork := work_send_cons hpc
        unfold sendStep at h
        split at h
        · split at h
          · cases h
          · cases List.mem_singleton.mp h
            simp only [total_cons, total_nil, Thread.work, goto_pc] at hwork ⊢
            omega
        · split at h
          · cases List.mem_singleton.mp h
            simp only [total_cons, total_nil, Thread.work, goto_pc] at hwork ⊢
            omega
          · split at h
            · cases List.mem_singleton.mp h
              simp only [total_cons, total_nil, Thread.work, goto_pc] at hwork ⊢
              omega
            · cases List.mem_singleton.mp h
              simp only [total_cons, total_nil, Thread.work, goto_pc, Pkg.slices] at hwork ⊢
              omega
    all_goals
      next hpc =>
        cases List.mem_singleton.mp h
        simp [Thread.work, hpc]
        try omega

/-- The steps of all calls. -/
def work (calls : List Call) : Nat := (calls.map fun c => todoWork c.plan.sends + 1).sum

private theorem total_work_initial (calls : List Call) :
    total Thread.work (initial calls).pool = work calls := by
  simp only [total, initial, work, List.map_map]
  rfl

/-- A pool with calls is not stuck. -/
private theorem exec_of_holds {cfg : Cfg} {c : Conf Shared Thread} (hc : (locks cfg).Holds c)
    (hpool : c.pool ≠ []) : ∃ m c', (prog cfg).exec c m = some c' := by
  obtain ⟨a, ha, hstep⟩ : ∃ a ∈ c.pool, step cfg c.shared a ≠ [] := by
    by_cases hidle : ∀ th ∈ c.pool, th.pc.holds = false
    · obtain ⟨th, hth⟩ := List.exists_mem_of_ne_nil _ hpool
      exact ⟨th, hth, waiter_can_step hc hidle hth⟩
    · push Not at hidle
      obtain ⟨th, hth, hh⟩ := hidle
      obtain ⟨a, ha, -, hstep⟩ := holder_can_step hc hth (by simpa using hh)
      exact ⟨a, ha, hstep⟩
  obtain ⟨⟨s', ths⟩, hout⟩ := List.exists_mem_of_ne_nil _ hstep
  obtain ⟨l, r, hpool'⟩ := List.append_of_mem ha
  obtain ⟨m, hm⟩ := exec_fire (p := prog cfg) l r hout
  rw [← hpool'] at hm
  exact ⟨m, _, hm⟩

/-- All calls can return, from every configuration with sound locks. -/
theorem completes_of_holds {cfg : Cfg} {c : Conf Shared Thread} (hc : (locks cfg).Holds c) :
    ∃ d, (prog cfg).Reaches c d ∧ d.pool = [] :=
  (step_lowers cfg).completes (locks cfg).Holds
    (fun _ _ _ h hm => (locks_valid cfg).holds_exec h hm)
    (fun _ h hpool => exec_of_holds h hpool) hc

/-- **Every write call returns**, when no write of the connection fails or blocks.  A run of
concurrent write calls, on any TCP connection and under any scheduler, has at most
`work calls` steps.  As long as a call is left, one of
those that hold `packetLock` can step, or nobody holds it and every call left can take it;
and from wherever a run has got, all calls can return. -/
theorem writers_always_return (cfg : Cfg) (calls : List Call) (ms : List (Move Thread))
    (c : Conf Shared Thread) (hrun : (prog cfg).run (initial calls) ms = some c) :
    ms.length ≤ work calls ∧
    ((∃ th ∈ c.pool, th.pc.holds = true) →
      ∃ th ∈ c.pool, th.pc.holds = true ∧ step cfg c.shared th ≠ []) ∧
    ((∀ th ∈ c.pool, th.pc.holds = false) → ∀ th ∈ c.pool, step cfg c.shared th ≠ []) ∧
    ∃ d, (prog cfg).Reaches c d ∧ d.pool = [] := by
  have hc := (locks_valid cfg).holds_run (locks_initial cfg calls) ⟨ms, hrun⟩
  refine ⟨?_, ?_, ?_, completes_of_holds hc⟩
  · have hlen := (step_lowers cfg).length_run_le hrun
    have hpos := total_nonneg Thread.work c.pool
    rw [total_work_initial] at hlen
    omega
  · rintro ⟨th, hth, hh⟩
    exact holder_can_step hc hth hh
  · intro hidle th hth
    exact waiter_can_step hc hidle hth

/-- A batch over TLS has put out its first package when a `Send` takes the read lock too. -/
theorem writers_always_return_tls :
    ∃ c, (prog ⟨false, false⟩).run (initial batchAndSend)
        [.fire 0 0, .fire 0 0, .fire 0 0, .fire 1 0] = some c ∧ c.shared.stream = [1] ∧
      c.shared.rlocks = 2 ∧ ∃ d, (prog ⟨false, false⟩).Reaches c d ∧ d.pool = [] :=
  ⟨_, rfl, rfl, rfl, (writers_always_return ⟨false, false⟩ batchAndSend
    [.fire 0 0, .fire 0 0, .fire 0 0, .fire 1 0] _ rfl).2.2.2⟩

end Getty.Transport.WriteStream
