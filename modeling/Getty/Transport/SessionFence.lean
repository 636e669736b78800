import Getty.Transport.SessionSafety
import Getty.Transport.SessionSteps

/-!
# Reset is a fence, and a close triggers one reconnect

What the invariant says about whole runs of a session: what has ended when the
reset worker clears the fields and when it delivers its result, and what a `stop`
call guarantees when it returns.

The fence has one gap.  `WriteBytesArray` looks at the connection before it takes
`packetLock`, so a batch may take the lock after the reset and still send to the
connection of the old generation.  The other writes look at it under the lock, and the
worker clears it under the lock: if no batch is waiting there when the worker begins to
clear, nothing is sent to a connection of that generation any more.

## Main results

* `step_write` — where a write has its connection and `packetLock` from.
* `sealed_iff` — what is sent after the reset, exactly.
* `reset_is_fence` — nothing registered in a generation survives its reset.
* `stop_runs_body_once` — the close sequence runs once, completely, and before any
  `stop` call returns.
-/

namespace Getty.Transport.Session

open Getty.Verified.ThreadPool

theorem holds_reaches {cfg : Config} {c : Conf Shared Thread}
    (h : prog.Reaches (initial cfg) c) : outline.Holds c :=
  outline_valid.holds_run (outline_initial cfg) h

/-! ## The fence -/

/-- Nothing of generation `l` is in flight: `run` and the read goroutine have
ended, whoever acquired the lifecycle has released it, the close callbacks have
returned, and its connection is closed. -/
structure Drained (c : Conf Shared Thread) (l : Nat) : Prop where
  runs : ∀ a ∈ c.pool, a.gr = false
  tasks : ∀ a ∈ c.pool, a.holds ≠ some l
  callbacks : (c.shared.gens l).callbacks = .finished
  cleanup : (c.shared.gens l).installed = true → (c.shared.gens l).cleanup = .finished
  conn : c.shared.conn = none

theorem holds_of_invokes {a : Thread} {l : Nat} (h : a.invokes = some l) : a.holds = some l := by
  cases a with
  | callbacks j pc =>
      cases pc with
      | release => cases h
      | _ => exact h
  | _ => cases h

theorem holds_of_closes {a : Thread} {l : Nat} (h : a.closes = some l) : a.holds = some l := by
  cases a with
  | cleanup j pc =>
      cases pc with
      | release => cases h
      | closeConn => exact h
  | _ => cases h

theorem Once.ne_running_of_run {x : Once} (h : (Once.run x : Int) = 0) : x ≠ .running := by
  rintro rfl
  simp at h

/-- When `grWG` and the lifecycle count are zero, the generation is drained. -/
private theorem drained_of_zero {c : Conf Shared Thread} {l : Nat} (hc : outline.Holds c)
    (hgr : c.shared.grWG = 0) (hfin : (c.shared.gens l).once = .finished)
    (hcount : (c.shared.gens l).count = 0) (hconn : c.shared.conn = none) : Drained c l := by
  have htasks : ∀ a ∈ c.pool, a.holds ≠ some l := by
    intro a ha hholds
    have hzero : outline.wt (.count l) a = 0 := hc.weight_eq_zero ha hcount
    simp [outline, hholds] at hzero
  have hcb : (c.shared.gens l).callbacks ≠ .running := by
    refine Once.ne_running_of_run ((hc.ledger (.callbacks l)).trans (total_eq_zero _ ?_))
    intro a ha
    have hne : a.invokes ≠ some l := fun h => htasks a ha (holds_of_invokes h)
    simp [outline, hne]
  have hcl : (c.shared.gens l).cleanup ≠ .running := by
    refine Once.ne_running_of_run ((hc.ledger (.cleanup l)).trans (total_eq_zero _ ?_))
    intro a ha
    have hne : a.closes ≠ some l := fun h => htasks a ha (holds_of_closes h)
    simp [outline, hne]
  refine ⟨fun a ha => ?_, htasks, ?_, fun hinst => ?_, hconn⟩
  · have hzero : outline.wt .gr a = 0 := hc.weight_eq_zero ha hgr
    cases h : a.gr with
    | false => rfl
    | true => simp [outline, h] at hzero
  · obtain ⟨-, -, hstarted, -⟩ := (hc.shared.ok l).finished hfin
    cases h : (c.shared.gens l).callbacks with
    | fresh => exact absurd h hstarted
    | running => exact absurd h hcb
    | finished => rfl
  · rcases hc.shared.installed l hinst with hcur | hstarted
    · simp [hconn] at hcur
    · cases h : (c.shared.gens l).cleanup with
      | fresh => exact absurd h hstarted
      | running => exact absurd h hcl
      | finished => rfl

/-! ## Where a write comes from -/

section Write

variable {s s' : Shared} {bs : List Thread}

/-- The connection that a write has looked at and is going to use. -/
def WritePc.target : WritePc → Option Nat
  | .lock _ c => c
  | .send _ c _ => some c
  | _ => none

/-- A write has `packetLock` and its connection from before, or has just got them. -/
def FromWrite (s : Shared) (a : Thread) (pc : WritePc) : Prop :=
  ∃ k' pc', a = .write k' pc' ∧
    (pc.locked ≠ none → pc'.locked ≠ none ∨ ∃ l c, pc' = .lock l c) ∧
    ∀ x, pc.target = some x → pc'.target = some x ∨ s.conn = some x

private theorem write_of_writeStep {k k' : WriteKind} {pc pc' : WritePc}
    (h : (s', bs) ∈ writeStep s k' pc') (hb : .write k pc ∈ bs) :
    FromWrite s (.write k' pc') pc := by
  refine ⟨k', pc', rfl, ?_⟩
  cases pc' with
  | closedCheck =>
      simp only [writeStep] at h
      split at h <;> cases List.mem_singleton.mp h
      · cases hb
      · cases List.mem_singleton.mp hb
        cases k <;> exact ⟨fun hw => absurd rfl hw, (fun x hx => by cases hx)⟩
  | snapshot | encode =>
      cases List.mem_singleton.mp h
      cases List.mem_singleton.mp hb
      exact ⟨fun hw => absurd rfl hw, (fun x hx => by cases hx)⟩
  | release l =>
      cases List.mem_singleton.mp h
      cases hb
  | acquire l =>
      simp only [writeStep] at h
      split at h <;> cases List.mem_singleton.mp h
      · cases hb
      · cases List.mem_singleton.mp hb
        exact ⟨fun hw => absurd rfl hw, (fun x hx => by cases hx)⟩
  | encoding l =>
      rcases List.mem_pair.mp h with h | h <;> cases h <;> cases List.mem_singleton.mp hb <;>
        exact ⟨fun hw => absurd rfl hw, (fun x hx => by cases hx)⟩
  | connFirst =>
      simp only [writeStep] at h
      split at h
      · cases List.mem_singleton.mp h
        cases hb
      · next c hconn =>
          simp only [List.mem_cons, List.not_mem_nil, or_false, Prod.mk.injEq] at h
          rcases h with ⟨rfl, rfl⟩ | ⟨rfl, rfl⟩ | ⟨rfl, rfl⟩ <;> cases List.mem_singleton.mp hb
          · refine ⟨fun hw => absurd rfl hw, fun x hx => Or.inr ?_⟩
            rw [hconn]
            exact hx
          · exact ⟨fun hw => absurd rfl hw, (fun x hx => by cases hx)⟩
          · exact ⟨fun hw => absurd rfl hw, (fun x hx => by cases hx)⟩
  | lock l c =>
      refine ⟨fun _ => Or.inr ⟨l, c, rfl⟩, fun x hx => Or.inl ?_⟩
      simp only [writeStep] at h
      split at h
      · cases c <;> cases List.mem_singleton.mp h <;> cases List.mem_singleton.mp hb
        · cases hx
        · exact hx
      · cases h
  | conn l g =>
      refine ⟨fun _ => Or.inl (Option.some_ne_none _), fun x hx => Or.inr ?_⟩
      simp only [writeStep] at h
      split at h
      · cases List.mem_singleton.mp h
        cases List.mem_singleton.mp hb
        cases hx
      · next c hconn =>
          cases List.mem_singleton.mp h
          cases List.mem_singleton.mp hb
          rw [hconn]
          exact hx
  | send l c g =>
      cases List.mem_singleton.mp h
      cases List.mem_singleton.mp hb
      exact ⟨fun _ => Or.inl (Option.some_ne_none _), (fun x hx => by cases hx)⟩
  | unlock l g =>
      refine ⟨fun _ => Or.inl (Option.some_ne_none _), fun x hx => ?_⟩
      cases l <;> cases List.mem_singleton.mp h
      · cases hb
      · cases List.mem_singleton.mp hb
        cases hx

/-- **Only a write becomes a write.** -/
theorem step_write {a : Thread} {k : WriteKind} {pc : WritePc} (h : (s', bs) ∈ step s a)
    (hb : .write k pc ∈ bs) : FromWrite s a pc := by
  cases step_leaves h hb with
  | write => exact write_of_writeStep h hb

end Write

/-! ## What is sent after a reset -/

/-- From `c` on, once generation `l` is cleared, no write sends to one of its connections or
of an earlier generation's. -/
def SealedFrom (c : Conf Shared Thread) (l : Nat) : Prop :=
  ∀ c', prog.Reaches c c' → l < c'.shared.gen →
    ∀ k p x g, .write k (.send p x g) ∈ c'.pool → l < x

/-- A write has looked at the connection and waits for `packetLock`: a batch. -/
def Thread.waitsWith : Thread → Option Nat
  | .write _ (.lock _ c) => c
  | _ => none

section Sealed

variable {l : Nat} {c c' : Conf Shared Thread} {s s' : Shared} {a : Thread} {bs : List Thread}

/-- The connection of a session, and those its writes are going to use. -/
structure Uses (P : Nat → Prop) (c : Conf Shared Thread) : Prop where
  conn : ∀ x, c.shared.conn = some x → P x
  target : ∀ k pc, .write k pc ∈ c.pool → ∀ x, pc.target = some x → P x

/-- A write that is started has no connection yet. -/
private theorem target_entry {k : WriteKind} {pc : WritePc} (h : entry s (.write k pc) = true) :
    pc.target = none := by
  cases pc with
  | lock p x =>
      cases k with
      | send =>
          cases p <;> cases x <;> first | rfl | cases h
      | _ => cases h
  | closedCheck => rfl
  | _ => cases k <;> cases h

/-- **Step rule.**  What is used stays good, as long as the connections that are added are. -/
theorem Uses.exec {P : Nat → Prop} {m : Move Thread} (hc : Uses P c)
    (hm : prog.exec c m = some c') (hadd : c.shared.cur.once = .fresh → P c.shared.gen) :
    Uses P c' := by
  rcases exec_cases hm with ⟨a, hentry, rfl⟩ | ⟨l, a, r, s', bs, hpool, hstep, rfl⟩
  · refine ⟨hc.conn, fun k pc hmem x hx => ?_⟩
    rcases List.mem_append.mp hmem with hmem | hmem
    · exact hc.target k pc hmem x hx
    · rw [← List.mem_singleton.mp hmem] at hentry
      rw [target_entry hentry] at hx
      cases hx
  · have hmem : a ∈ c.pool := by rw [hpool]; simp
    refine ⟨fun x hx => ?_, fun k pc hb x hx => ?_⟩
    · rcases step_wiring hstep with ⟨-, hconn, -⟩ | ⟨-, -, hconn, -⟩ | ⟨-, hconn, -⟩ |
        ⟨-, hfresh, hconn, -⟩
      · exact hc.conn x (hconn.symm.trans hx)
      · exact absurd (hconn.symm.trans hx) (Option.some_ne_none x).symm
      · exact absurd (hconn.symm.trans hx) (Option.some_ne_none x).symm
      · cases hconn.symm.trans hx
        exact hadd hfresh
    · have hold : .write k pc ∈ c.pool → P x := fun hw => hc.target k pc hw x hx
      rcases List.mem_append.mp hb with hb | hb
      · rcases List.mem_append.mp hb with hb | hb
        · exact hold (by rw [hpool]; simp [hb])
        · obtain ⟨k', pc', rfl, -, htarget⟩ := step_write hstep hb
          rcases htarget x hx with hsame | hconn
          · exact hc.target k' pc' hmem x hsame
          · exact hc.conn x hconn
      · exact hold (by rw [hpool]; simp [hb])

/-- The generations only advance. -/
theorem gen_exec {m : Move Thread} (hm : prog.exec c m = some c') :
    c.shared.gen ≤ c'.shared.gen := by
  rcases exec_cases hm with ⟨a, -, rfl⟩ | ⟨l, a, r, s', bs, -, hstep, rfl⟩
  · exact Nat.le_refl _
  · show c.shared.gen ≤ s'.gen
    rcases step_wiring hstep with ⟨-, -, hgen⟩ | ⟨-, -, -, hgen⟩ | ⟨-, -, hgen⟩ |
      ⟨-, -, -, hgen, -⟩ <;> omega

/-- A connection is of a generation that has begun. -/
private theorem uses_begun {cfg : Config} (h : prog.Reaches (initial cfg) c) :
    Uses (fun x => x ≤ c.shared.gen) c := by
  have hboth : ∃ g, g ≤ c.shared.gen ∧ Uses (fun x => x ≤ g) c := by
    refine h.induct (fun d => ∃ g, g ≤ d.shared.gen ∧ Uses (fun x => x ≤ g) d) ⟨0, ?_, ?_⟩ ?_
    · exact Nat.le_refl _
    · exact ⟨fun x hx => by cases hx; exact Nat.le_refl _, fun k pc hmem => by cases hmem⟩
    · rintro d d' m ⟨g, hg, hd⟩ hm
      refine ⟨d.shared.gen, gen_exec hm, Uses.exec ?_ hm fun _ => Nat.le_refl _⟩
      exact ⟨fun x hx => (hd.conn x hx).trans hg,
        fun k pc hmem x hx => (hd.target k pc hmem x hx).trans hg⟩
  obtain ⟨g, hg, huses⟩ := hboth
  exact ⟨fun x hx => (huses.conn x hx).trans hg,
    fun k pc hmem x hx => (huses.target k pc hmem x hx).trans hg⟩

/-- While the worker clears, no write has `packetLock`. -/
theorem unlocked_of_clear (hc : outline.Holds c) (hmem : .worker (.clear l) ∈ c.pool) :
    c.shared.writing = true ∧ c.shared.readers = 0 ∧
      ∀ k pc, .write k pc ∈ c.pool → pc.locked = none := by
  have hheld : c.shared.writing = true := by
    have hle := hc.weight_le hmem .writing
    cases hw : c.shared.writing with
    | true => rfl
    | false => simp [outline, Thread.writes, hw] at hle
  have hzero := hc.shared.lock hheld
  refine ⟨hheld, hzero, fun k pc hwrite => ?_⟩
  by_contra hlocked
  obtain ⟨g, hg⟩ := Option.ne_none_iff_exists'.mp hlocked
  cases hk : k.exclusive with
  | false =>
      have hle := hc.weight_le hwrite .readers
      simp [outline, Thread.reads, hg, hk, hzero] at hle
  | true =>
      -- two different threads would have the lock for writing
      obtain ⟨left, right, hpool⟩ := List.append_of_mem hmem
      have hside : Thread.write k pc ∈ left ∨ Thread.write k pc ∈ right := by
        rw [hpool] at hwrite
        rcases List.mem_append.mp hwrite with hw | hw
        · exact Or.inl hw
        · rcases List.mem_cons.mp hw with hw | hw
          · cases hw
          · exact Or.inr hw
      have hpair := hc.weight_pair_le hpool hside .writing
      simp [outline, Thread.writes, hg, hk, hheld] at hpair

/-- **Run lemma.**  Without a batch that waits, the connections of the generation are out of
use from its clearing on. -/
theorem sealed_of_none {cfg : Config} (h : prog.Reaches (initial cfg) c)
    (hmem : .worker (.clear l) ∈ c.pool) (hnone : ∀ a ∈ c.pool, a.waitsWith = none) :
    SealedFrom c l := by
  have hc := holds_reaches h
  obtain ⟨hfin, rfl, -, -, hconn, -⟩ := hc.loc _ hmem
  obtain ⟨-, -, hunlocked⟩ := unlocked_of_clear hc hmem
  have huses : Uses (fun x => c.shared.gen < x) c := by
    refine ⟨fun x hx => absurd (hconn.symm.trans hx) (Option.some_ne_none x).symm,
      fun k pc hw x hx => ?_⟩
    cases pc with
    | lock p y => exact absurd ((hnone _ hw).symm.trans hx) (Option.some_ne_none x).symm
    | send p y g => exact absurd (hunlocked k _ hw) (Option.some_ne_none g)
    | _ => cases hx
  have hall : ∀ d, prog.Reaches c d → c.shared.gen ≤ d.shared.gen ∧
      Uses (fun x => c.shared.gen < x) d := by
    intro d hd
    have hinv : prog.Reaches c d ∧ c.shared.gen ≤ d.shared.gen ∧
        Uses (fun x => c.shared.gen < x) d := by
      refine hd.induct (fun d => prog.Reaches c d ∧ c.shared.gen ≤ d.shared.gen ∧
        Uses (fun x => c.shared.gen < x) d) ⟨⟨[], rfl⟩, Nat.le_refl _, huses⟩ ?_
      rintro d d' m ⟨hreach, hle, hd⟩ hm
      refine ⟨hreach.snoc hm, hle.trans (gen_exec hm), hd.exec hm fun hfresh => ?_⟩
      -- a connection is added to a generation that was not closed
      refine Nat.lt_of_le_of_ne hle fun heq => ?_
      have hstill : (d.shared.gens c.shared.gen).once = .finished :=
        hreach.induct (fun e => (e.shared.gens c.shared.gen).once = .finished) hfin
          fun e e' m he hm => by
            rcases exec_cases hm with ⟨a, -, rfl⟩ | ⟨l, a, r, s', bs, -, hstep, rfl⟩
            · exact he
            · rcases step_once hstep c.shared.gen with hsame | ⟨k, -, hf, -⟩ | ⟨k, -, hf⟩
              · exact hsame.trans he
              · rw [he] at hf
                cases hf
              · exact hf
      rw [heq] at hstill
      rw [Shared.cur, hstill] at hfresh
      cases hfresh
    exact hinv.2
  intro d hd _ k p x g hw
  exact (hall d hd).2.target k _ hw x rfl

/-- A batch that waits takes `packetLock` after the reset, and sends. -/
private theorem not_sealed_of_waits {cfg : Config} (h : prog.Reaches (initial cfg) c)
    (hmem : .worker (.clear l) ∈ c.pool) {x : Nat} (ha : a ∈ c.pool)
    (hwaits : a.waitsWith = some x) : ¬ SealedFrom c l := by
  have hc := holds_reaches h
  obtain ⟨-, rfl, -⟩ := hc.loc _ hmem
  obtain ⟨hheld, hzero, -⟩ := unlocked_of_clear hc hmem
  obtain ⟨k, p, rfl⟩ : ∃ k p, a = .write k (.lock p (some x)) := by
    cases a with
    | write k pc =>
        cases pc with
        | lock p y =>
            cases hwaits
            exact ⟨k, p, rfl⟩
        | _ => cases hwaits
    | _ => cases hwaits
  have hx : x ≤ c.shared.gen := (uses_begun h).target k _ ha x rfl
  obtain ⟨rest, hperm⟩ : ∃ rest, c.pool.Perm
      (.worker (.clear c.shared.gen) :: .write k (.lock p (some x)) :: rest) :=
    ⟨_, (List.perm_cons_erase hmem).trans
      ((List.perm_cons_erase ((List.mem_erase_of_ne (by simp)).mpr ha)).cons _)⟩
  let s₁ := c.shared.clear
  let s₂ := s₁.unlockPacket true
  have hfront : prog.Leads c
      ⟨c.shared, .worker (.clear c.shared.gen) :: .write k (.lock p (some x)) :: rest⟩ :=
    .of_equiv ⟨rfl, hperm⟩
  have hclear : prog.Leads c
      ⟨s₁, [.worker (.unlock c.shared.gen)] ++ .write k (.lock p (some x)) :: rest⟩ :=
    hfront.trans (.fire _ (List.mem_singleton.mpr rfl))
  have hunlock : prog.Leads c ⟨s₂, [.worker (.deliver (some c.shared.gen))] ++
      .write k (.lock p (some x)) :: rest⟩ :=
    hclear.trans (.fire _ (List.mem_singleton.mpr rfl))
  have hfree : s₂.canLock k.exclusive = true := by
    simp [s₂, s₁, Shared.canLock, Shared.unlockPacket, Shared.clear, hzero]
  have hlock : (s₂.lockPacket k.exclusive, [Thread.write k (.send p x s₂.gen)]) ∈
      prog.step s₂ (.write k (.lock p (some x))) := by
    simp [prog, step, writeStep, hfree]
  have hturn : prog.Leads c ⟨s₂, .write k (.lock p (some x)) ::
      .worker (.deliver (some c.shared.gen)) :: rest⟩ :=
    hunlock.trans (.of_equiv ⟨rfl, List.Perm.swap _ _ _⟩)
  have hsend : prog.Leads c ⟨s₂.lockPacket k.exclusive, [.write k (.send p x s₂.gen)] ++
      (.worker (.deliver (some c.shared.gen)) :: rest)⟩ :=
    hturn.trans (.fire _ hlock)
  obtain ⟨d, hreach, hshared, hpool⟩ := hsend
  intro hsealed
  have hgen : c.shared.gen < d.shared.gen := by
    rw [hshared]
    cases k.exclusive <;> exact Nat.lt_succ_self _
  have hlt := hsealed d hreach hgen k p x s₂.gen (hpool.symm.subset (by simp))
  omega

/-- **What is sent after a reset.**  Nothing is sent to a connection of the generation from its
clearing on, if and only if no batch has looked at the connection by then and waits. -/
theorem sealed_iff {cfg : Config} (h : prog.Reaches (initial cfg) c)
    (hmem : .worker (.clear l) ∈ c.pool) :
    SealedFrom c l ↔ ∀ a ∈ c.pool, a.waitsWith = none := by
  refine ⟨fun hsealed a ha => ?_, sealed_of_none h hmem⟩
  cases hwaits : a.waitsWith with
  | none => rfl
  | some x => exact absurd hsealed (not_sealed_of_waits h hmem ha hwaits)

end Sealed

/-! ## Writes that wait -/

/-- The session while no write takes `packetLock`. -/
def patient : Prog Shared Thread where
  entry := entry
  step s
    | .write _ (.lock _ _) => []
    | a => step s a

/-- **Run lemma.**  Whoever has `packetLock` then, has had it before. -/
theorem patient_unlocked {c c' : Conf Shared Thread} (h : patient.Reaches c c')
    (hc : ∀ k pc, .write k pc ∈ c.pool → pc.locked = none) :
    ∀ k pc, .write k pc ∈ c'.pool → pc.locked = none := by
  refine h.induct (fun d => ∀ k pc, .write k pc ∈ d.pool → pc.locked = none) hc ?_
  intro d d' m hd hm k pc hw
  rcases exec_cases hm with ⟨a, hentry, rfl⟩ | ⟨l, a, r, s', bs, hpool, hstep, rfl⟩
  · rcases List.mem_append.mp hw with hw | hw
    · exact hd k pc hw
    · rw [← List.mem_singleton.mp hw] at hentry
      cases pc with
      | lock | closedCheck => rfl
      | _ => cases k <;> cases hentry
  · rcases List.mem_append.mp hw with hw | hw
    · rcases List.mem_append.mp hw with hw | hw
      · exact hd k pc (by rw [hpool]; simp [hw])
      · by_contra hlocked
        have hstep' : (s', bs) ∈ step d.shared a := by
          simp only [patient] at hstep
          split at hstep
          · cases hstep
          · exact hstep
        obtain ⟨k', pc', rfl, horigin, -⟩ := step_write hstep' hw
        rcases horigin hlocked with hbefore | ⟨p, x, rfl⟩
        · exact hbefore (hd k' pc' (by rw [hpool]; simp))
        · cases hstep
    · exact hd k pc (by rw [hpool]; simp [hw])

/-! ## The fence as a whole -/

/-- The reset worker's wait on `grWG` has returned. -/
def Thread.waitedGr : Thread → Bool
  | .gc (.reset _) => true
  | .worker (.waitLifecycle _) => true
  | .worker (.lock _) => true
  | .worker (.clear _) => true
  | .worker (.unlock _) => true
  | .worker (.deliver (some _)) => true
  | _ => false

/-- The generation whose lifecycle the reset worker has waited for. -/
def Thread.waitedLifecycle : Thread → Option Nat
  | .worker (.lock l) => some l
  | .worker (.clear l) => some l
  | .worker (.unlock l) => some l
  | .worker (.deliver (some l)) => some l
  | _ => none

private theorem waitedGr_zero {s : Shared} {a : Thread} (hl : Local s a) (h : a.waitedGr = true) :
    s.grWG = 0 := by
  cases a with
  | gc k =>
      cases k with
      | reset l => exact hl.2.2
      | _ => cases h
  | worker pc =>
      cases pc with
      | waitLifecycle l => exact hl.2.2.1
      | lock l => exact hl.2.2.1
      | clear l => exact hl.2.2.1
      | unlock l => exact hl.2.1
      | deliver cleared =>
          cases cleared with
          | some l => exact hl.2.1
          | none => cases h
      | _ => cases h
  | _ => cases h

theorem waitedLifecycle_zero {s : Shared} {a : Thread} {l : Nat} (hs : Inv s) (hl : Local s a)
    (h : a.waitedLifecycle = some l) : (s.gens l).count = 0 := by
  have hpast : s.gen = l + 1 → (s.gens l).count = 0 := fun hgen => (hs.past l (by omega)).2
  cases a with
  | worker pc =>
      cases pc with
      | lock j =>
          obtain ⟨-, rfl, -, -, -, hcount⟩ := hl
          cases h
          exact hcount
      | clear j =>
          obtain ⟨-, rfl, -, -, -, hcount⟩ := hl
          cases h
          exact hcount
      | unlock j =>
          cases h
          exact hpast hl.1
      | deliver cleared =>
          cases cleared with
          | some j =>
              cases h
              exact hpast hl.1
          | none => cases h
      | _ => cases h
  | _ => cases h

private theorem locked_gen {s : Shared} {k : WriteKind} {pc : WritePc} {g : Nat}
    (hl : Local s (.write k pc)) (h : pc.locked = some g) : g = s.gen := by
  cases pc with
  | acquire l => cases h
  | _ => exact hl g h

/-- **Reset is a fence.**  When the worker starts to clear generation `l` it is
drained, and nobody else has `packetLock`.  Nothing is sent to a connection of that
generation any more, if and only if no `WriteBytesArray` call has looked at the connection
and waits for `packetLock` then.  When the worker delivers nil, the generation is still
drained, and writes that have `packetLock` took it in the new generation; if no write has
taken it since, none has it.  Whoever has acquired a lifecycle has acquired the current one,
so that an `OnMessage` or `OnCron` task queued before the reset does not call the listener
after it.  The counters are never negative, and zero from the return of the worker's waits
on. -/
theorem reset_is_fence (cfg : Config) (c : Conf Shared Thread)
    (h : prog.Reaches (initial cfg) c) :
    (∀ l, .worker (.clear l) ∈ c.pool → Drained c l ∧ c.shared.readers = 0 ∧
      (∀ k pc, .write k pc ∈ c.pool → pc.locked = none) ∧
      (SealedFrom c l ↔ ∀ a ∈ c.pool, a.waitsWith = none) ∧
      ∀ c', patient.Reaches c c' → .worker (.deliver (some l)) ∈ c'.pool →
        ∀ k pc, .write k pc ∈ c'.pool → pc.locked = none) ∧
      (∀ l, .worker (.deliver (some l)) ∈ c.pool → Drained c l ∧
        ∀ k pc g, .write k pc ∈ c.pool → pc.locked = some g → g = l + 1) ∧
      (∀ a ∈ c.pool, ∀ l, a.holds = some l → l = c.shared.gen) ∧
      (∀ l inline, .task l inline .inMessage ∈ c.pool → l = c.shared.gen) ∧
      (∀ l, .cron l .inCron ∈ c.pool → l = c.shared.gen) ∧
      0 ≤ c.shared.grWG ∧
      (∀ g, 0 ≤ (c.shared.gens g).count ∧ (g < c.shared.gen → (c.shared.gens g).count = 0)) ∧
      (∀ a ∈ c.pool, (a.waitedGr = true → c.shared.grWG = 0) ∧
        ∀ l, a.waitedLifecycle = some l → (c.shared.gens l).count = 0) := by
  have hc := holds_reaches h
  have hcurrent : ∀ a ∈ c.pool, ∀ l, a.holds = some l → l = c.shared.gen :=
    fun a ha l hholds => Booked.holds_eq hc.shared (fun i => hc.weight_le ha i) hholds
  refine ⟨fun l hmem => ?_, fun l hmem => ?_, hcurrent, fun l inline hmem => hcurrent _ hmem l rfl,
    fun l hmem => hcurrent _ hmem l rfl, hc.val_nonneg .gr,
    fun g => ⟨hc.val_nonneg (.count g), fun hlt => (hc.shared.past g hlt).2⟩, fun a ha => ?_⟩
  · have hsealed := sealed_iff h hmem
    obtain ⟨-, hzero, hunlocked⟩ := unlocked_of_clear hc hmem
    obtain ⟨hfin, rfl, hgr, -, hconn, hcount⟩ := hc.loc _ hmem
    exact ⟨drained_of_zero hc hgr hfin hcount hconn, hzero, hunlocked, hsealed,
      fun c' hpatient _ => patient_unlocked hpatient hunlocked⟩
  · obtain ⟨hgen, hgr, hconn⟩ := hc.loc _ hmem
    obtain ⟨hfin, hcount⟩ := hc.shared.past l (by omega)
    refine ⟨drained_of_zero hc hgr hfin hcount hconn, fun k pc g hwrite hlocked => ?_⟩
    exact (locked_gen (hc.loc _ hwrite) hlocked).trans hgen
  · exact ⟨waitedGr_zero (hc.loc a ha), fun l => waitedLifecycle_zero hc.shared (hc.loc a ha)⟩

/-- A configuration of a client session without a task pool. -/
def clientConfig : Config := ⟨reconnecting, none, true, true⟩

/-- A batch has looked at the connection, and a reset request runs up to the
delivery of its result. -/
def resetPastBatch : List (Move Thread) :=
  [.start (.write (.batch false) .closedCheck), .fire 0 0, .fire 0 0] ++
    .start (.reset .resetAsync) :: List.replicate 19 (.fire 1 0) ++
    [.fire 3 0, .fire 3 0, .fire 3 0, .fire 2 0, .fire 2 0] ++ List.replicate 4 (.fire 1 0)

/-- When the worker delivers nil, generation 0 is drained. -/
theorem reset_is_fence_at_delivery :
    ∃ c, prog.Reaches (initial clientConfig) c ∧ .worker (.deliver (some 0)) ∈ c.pool ∧
      Drained c 0 := by
  have hrun : ∃ c ∈ prog.run (initial clientConfig) resetPastBatch,
      c.pool = [.write (.batch false) (.lock none (some 0)), .worker (.deliver (some 0))] := by
    decide +kernel
  obtain ⟨c, hc, hpool⟩ := hrun
  have hmem : .worker (.deliver (some 0)) ∈ c.pool := by simp [hpool]
  exact ⟨c, ⟨_, hc⟩, hmem, ((reset_is_fence clientConfig c ⟨_, hc⟩).2.1 0 hmem).1⟩

/-- The gap of the fence: nil is about to be delivered while a `WriteBytesArray`
call that began before the reset has `packetLock` and sends to the connection of
the generation that was reset. -/
theorem batch_overtakes_reset :
    ∃ c, prog.Reaches (initial clientConfig) c ∧ .worker (.deliver (some 0)) ∈ c.pool ∧
      .write (.batch false) (.send none 0 1) ∈ c.pool ∧ c.shared.gen = 1 ∧
      c.shared.readers = 1 := by
  have hrun : ∃ c ∈ prog.run (initial clientConfig) (resetPastBatch ++ [.fire 0 0]),
      c.pool = [.write (.batch false) (.send none 0 1), .worker (.deliver (some 0))] ∧
      c.shared.gen = 1 ∧ c.shared.readers = 1 := by
    decide +kernel
  obtain ⟨c, hc, hpool, hgen, hreaders⟩ := hrun
  exact ⟨c, ⟨_, hc⟩, by simp [hpool], by simp [hpool], hgen, hreaders⟩

/-! ## The close sequence -/

/-- **One close sequence, one reconnect.**  In every generation the body of `stop`
is entered at most once and calls `runReconnect` at most once; when a `stop` call
has returned, the body has finished, and has called `runReconnect` if the
generation carries the reconnect attributes.  `gc` erases the attributes only
after that, so the body reads what the generation carries. -/
theorem stop_runs_body_once (cfg : Config) (c : Conf Shared Thread)
    (h : prog.Reaches (initial cfg) c) :
    (∀ g, (c.shared.gens g).bodies ≤ 1 ∧ (c.shared.gens g).reconnects ≤ 1 ∧
      ((c.shared.gens g).returned = true →
        (c.shared.gens g).once = .finished ∧ (c.shared.gens g).bodies = 1 ∧
          ((c.shared.gens g).carried = reconnecting → (c.shared.gens g).reconnects = 1))) ∧
      (c.shared.attrs = none → c.shared.cur.once = .finished) ∧
      (∀ g k, .stop (.attrClient g) k ∈ c.pool →
        c.shared.attrs = some (c.shared.gens g).carried) ∧
      (∀ g found k, .stop (.attrIgnore g found) k ∈ c.pool →
        c.shared.attrs = some (c.shared.gens g).carried) := by
  have hc := holds_reaches h
  have hreads : ∀ {a : Thread} {g : Nat}, a ∈ c.pool → a.body = some g → g = c.shared.gen →
      c.shared.attrs = some (c.shared.gens g).carried := by
    intro a g ha hbody hg
    have hbook : Booked c.shared a := fun i => hc.weight_le ha i
    have hrun := hbook.running hbody
    subst hg
    exact hc.shared.attrs (by rw [show c.shared.cur.once = .running from hrun]; simp)
  refine ⟨fun g => ?_, fun hnone => ?_, fun g k hmem => hreads hmem rfl (hc.loc _ hmem).1.1,
    fun g found k hmem => hreads hmem rfl (hc.loc _ hmem).1.1⟩
  · have hok := hc.shared.ok g
    refine ⟨?_, hok.reconnects, fun hret => ?_⟩
    · by_cases hfresh : (c.shared.gens g).once = .fresh
      · rw [(hok.idle hfresh).1]
        exact Nat.zero_le _
      · exact Nat.le_of_eq (hok.entered hfresh)
    · have hfin := hok.returned hret
      exact ⟨hfin, hok.entered (by rw [hfin]; simp), (hok.finished hfin).2.2.2⟩
  · by_contra hne
    have hattrs := hc.shared.attrs hne
    rw [hnone] at hattrs
    cases hattrs

/-- Two `Close` calls on a client session: both return, and one reconnect is
triggered. -/
theorem stop_runs_body_once_two_closes :
    ∃ c, prog.Reaches (initial clientConfig) c ∧ c.pool = [.callbacks 0 .enter] ∧
      (c.shared.gens 0).bodies = 1 ∧ (c.shared.gens 0).reconnects = 1 := by
  have hrun : ∃ c ∈ prog.run (initial clientConfig) (List.flatten
      [[.start (.stop .readOnce .close), .start (.stop .readOnce .close), .fire 0 0, .fire 1 0],
        List.replicate 10 (.fire 0 0), [.fire 1 0]]),
      c.pool = [.callbacks 0 .enter] ∧ (c.shared.gens 0).returned = true ∧
      (c.shared.gens 0).carried = reconnecting := by
    decide +kernel
  obtain ⟨c, hc, hpool, hret, hcarried⟩ := hrun
  obtain ⟨-, hbodies, hrec⟩ :=
    ((stop_runs_body_once clientConfig c ⟨_, hc⟩).1 0).2.2 hret
  exact ⟨c, ⟨_, hc⟩, hpool, hbodies, hrec hcarried⟩

end Getty.Transport.Session
