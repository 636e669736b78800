import Getty.Verified.Progress
import Getty.Transport.ClientWaits

/-!
# The client never deadlocks

From now on no dial succeeds.  Then a pass is over after `maxReconnectAttempts` attempts, a
trigger is good for one more pass, and everything else goes through its code once.  The rank
of a thread bounds the number of steps that it and the threads it starts still take, and
since somebody can always take a step, everything comes to an end.

## Main results

* `descends` — every thread that can take a step can take one that lowers the rank.
* `comes_to_rest` — all goroutines but the reset workers can run to their end.
* `client_never_deadlocks` — in every reachable configuration, together with what the waiting
  goroutines wait for.
-/

namespace Getty.Transport.ClientPool.Progress

open Getty.Verified.ThreadPool
open Getty.Transport.Reconnect (Options)
open Getty.Transport.SingleFlight (Flight)

/-! ## Ranks -/

section Rank

variable (o : Options)

/-- A pass that has failed `a` times in a row. -/
def passRank (a : Nat) : Nat := 3 + (o.attempts - a) * (2 * o.number + 9)

/-- A pending trigger: one more pass. -/
def pendingRank : Nat := 2 + o.attempts * (2 * o.number + 9)

private theorem passRank_zero : passRank o 0 = pendingRank o + 1 := by
  unfold passRank pendingRank
  rw [Nat.sub_zero]
  omega

private theorem passRank_succ {a : Nat} (h : a < o.attempts) :
    passRank o a = passRank o (a + 1) + (2 * o.number + 9) := by
  have hsub : o.attempts - a = o.attempts - (a + 1) + 1 := by omega
  unfold passRank
  rw [hsub, Nat.succ_mul]
  omega

private theorem passRank_le (a : Nat) : passRank o a ≤ passRank o 0 :=
  Nat.add_le_add_left (Nat.mul_le_mul_right _ (by omega)) 3

theorem three_le_passRank (a : Nat) : 3 ≤ passRank o a := Nat.le_add_right _ _

/-- After a failed attempt: one more `sessionNum` call, and the back-off. -/
def failedRank (a : Nat) : Nat := o.number + 4 + passRank o a

/-- What follows the return of `connect`. -/
def returnRank : Caller → Nat
  | .alone => 0
  | .loop _ _ _ => o.number + 4 + passRank o 0

/-- What follows a dial that fails. -/
def dialRank : Caller → Nat
  | .alone => 0
  | .loop _ _ a => failedRank o (a + 1)

/-- What follows a `sessionNum` call. -/
def numRank : NumCaller → Nat
  | .alone => 0
  | .before _ _ a => failedRank o (a + 1) + 2
  | .after _ _ a => passRank o a + 1

/-- `session.stop`, with the reconnect loop that it may start. -/
def stopRank : StopPc → Nat
  | .readOnce => pendingRank o + 9
  | .doOnce _ => pendingRank o + 8
  | .closeDone _ => pendingRank o + 7
  | .attrClient _ => pendingRank o + 6
  | .attrIgnore _ _ => pendingRank o + 5
  | .reconnect _ => pendingRank o + 4
  | .finish _ => 1

/-- `connect` after the dial; it may have to close the session. -/
def connRank (k : Caller) (pc : ConnPc) : Nat :=
  pendingRank o + 9 + returnRank o k +
    match pc with
    | .newSession => o.number + 14
    | .setClient => o.number + 13
    | .setIgnore => o.number + 12
    | .run => o.number + 11
    | .check => o.number + 10
    | .onOpen => o.number + 9
    | .lock => o.number + 8
    | .pool => o.number + 7
    | .active => o.number + 6
    | .prune todo => todo.length + 5
    | .addSession => 4
    | .drop _ => 3
    | .dropIgnore _ => 2
    | .unlock _ => 1
    | .unlockTrue => 1

/-- The loop of `client.stop` over the sessions. -/
def closeRank (todo : List Nat) : Nat := 1 + todo.length * (pendingRank o + 12)

/-- What follows the return of `session.stop`. -/
def contRank : Cont → Nat
  | .ret => 0
  | .shutdown => 1
  | .reset => 2
  | .opening k => connRank o k .lock + 1
  | .dropped k => returnRank o k
  | .pool rest => closeRank o rest

def gcRank : Cont → Nat
  | .reset => 2
  | .opening k => connRank o k .lock + 1
  | _ => 1

def rank : Thread → Nat
  | .trigger => pendingRank o + 3
  | .top _ => 2
  | .pass _ _ a => passRank o a
  | .failed _ _ a => failedRank o a
  | .backoff _ _ a => passRank o a + 1
  | .closing _ => 1
  | .sessionNum k none => o.number + 2 + numRank o k
  | .sessionNum k (some todo) => todo.length + 1 + numRank o k
  | .dial k false => dialRank o k + 2
  | .dial k true => dialRank o k + 1
  | .connect k _ pc => connRank o k pc
  | .close => o.number * (pendingRank o + 12) + 3
  | .closeSection => o.number * (pendingRank o + 12) + 2
  | .closeLoop todo => closeRank o todo
  | .closeDrop _ rest => closeRank o rest + (pendingRank o + 11)
  | .closeDropIgnore _ rest => closeRank o rest + (pendingRank o + 10)
  | .stop _ pc k => stopRank o pc + contRank o k
  | .gc _ k => gcRank o k
  | .readEOF _ => pendingRank o + 11
  | .reset _ => pendingRank o + 12
  | .clear _ => 1

/-- The rank of the threads and of the trigger that may be pending. -/
def rankSum (s : Shared) (ths : List Thread) : Nat :=
  (ths.map (rank o)).sum + if s.flight.reconnectPending then pendingRank o else 0

/-- `connect` may still panic. -/
def early : Thread → Bool
  | .connect _ _ .newSession | .connect _ _ .setClient | .connect _ _ .setIgnore => true
  | .connect _ _ .run | .connect _ _ .check => true
  | _ => false

end Rank

/-! ## Steps that lower the rank -/

section Ends

variable {o : Options} {s : Shared} {a : Thread}

/-- The thread has a step that lowers the rank and starts no `connect`. -/
def Descends (o : Options) (s : Shared) (a : Thread) : Prop :=
  ∃ s' bs, (s', bs) ∈ step o s a ∧ rankSum o s' bs < rankSum o s [a] ∧ ∀ b ∈ bs, early b = false

theorem rankSum_of_pending {s' : Shared} {bs : List Thread}
    (hflight : s'.flight.reconnectPending = s.flight.reconnectPending)
    (hrank : (bs.map (rank o)).sum < rank o a) : rankSum o s' bs < rankSum o s [a] := by
  unfold rankSum
  rw [hflight]
  simpa using hrank

/-- A step that leaves the pending trigger alone. -/
theorem descends_of {s' : Shared} {bs : List Thread} (h : (s', bs) ∈ step o s a)
    (hflight : s'.flight.reconnectPending = s.flight.reconnectPending)
    (hrank : (bs.map (rank o)).sum < rank o a) (hearly : ∀ b ∈ bs, early b = false) :
    Descends o s a :=
  ⟨s', bs, h, rankSum_of_pending hflight hrank, hearly⟩

/-- The only step of a thread. -/
theorem descends_one {out : Shared × List Thread} (h : step o s a = [out])
    (hflight : out.1.flight.reconnectPending = s.flight.reconnectPending)
    (hrank : (out.2.map (rank o)).sum < rank o a) (hearly : ∀ b ∈ out.2, early b = false) :
    Descends o s a :=
  descends_of (by rw [h]; exact List.mem_singleton.mpr rfl) hflight hrank hearly

/-- A step that may set the trigger. -/
theorem descends_trigger {out : Shared × List Thread} (h : step o s a = [out])
    (hrank : (out.2.map (rank o)).sum + pendingRank o < rank o a)
    (hearly : ∀ b ∈ out.2, early b = false) : Descends o s a := by
  refine ⟨out.1, out.2, by rw [h]; exact List.mem_singleton.mpr rfl, ?_, hearly⟩
  unfold rankSum
  simp only [List.map_cons, List.map_nil, List.sum_cons, List.sum_nil]
  split <;> split <;> omega

theorem early_connectReturn (k : Caller) (ok : Bool) :
    ∀ b ∈ connectReturn k ok, early b = false := by
  cases k <;> cases ok <;> simp [connectReturn, early]

theorem rank_connectReturn (k : Caller) (ok : Bool) :
    ((connectReturn k ok).map (rank o)).sum ≤ returnRank o k := by
  cases k with
  | alone => simp [connectReturn]
  | loop ch n a =>
      have hle := passRank_le o (a + 1)
      cases ok with
      | true => simp [connectReturn, rank, returnRank]
      | false =>
          simp [connectReturn, rank, returnRank, failedRank]
          omega

private theorem rank_dialReturn (k : Caller) :
    ((connectReturn k false).map (rank o)).sum ≤ dialRank o k := by
  cases k <;> simp [connectReturn, rank, dialRank]

theorem rank_spawned (ch : Option Nat) : ((spawned ch).map (rank o)).sum ≤ 2 := by
  cases ch <;> simp [spawned, rank]

theorem early_spawned (ch : Option Nat) : ∀ b ∈ spawned ch, early b = false := by
  cases ch <;> simp [spawned, early]

private theorem rank_afterStop (i : Nat) (k : Cont) :
    ((afterStop s i k).2.map (rank o)).sum ≤ contRank o k := by
  cases k with
  | dropped k => exact rank_connectReturn k false
  | _ => simp [afterStop, rank, contRank, gcRank]

theorem early_afterStop (i : Nat) (k : Cont) : ∀ b ∈ (afterStop s i k).2, early b = false := by
  cases k with
  | dropped k => exact early_connectReturn k false
  | _ => simp [afterStop, early]

private theorem pending_afterStop (i : Nat) (k : Cont) :
    (afterStop s i k).1.flight.reconnectPending = s.flight.reconnectPending := by
  cases k <;> rfl

theorem mutex_free {l : Outcomes} (h : (if s.mutex = true then [] else l) ≠ []) :
    s.mutex = false := by
  cases hm : s.mutex with
  | false => rfl
  | true =>
      rw [if_pos hm] at h
      exact absurd rfl h

private theorem descends_afterStop {s₁ : Shared} {i : Nat} {pc : StopPc} {k : Cont}
    (h : step o s (.stop i pc k) = [afterStop s₁ i k]) (hflight : s₁.flight = s.flight) :
    Descends o s (.stop i pc k) := by
  refine descends_one h ?_ ?_ (early_afterStop i k)
  · rw [pending_afterStop, hflight]
  · have hle := rank_afterStop (o := o) (s := s₁) i k
    have hpos : 0 < stopRank o pc := by
      cases pc <;> simp [stopRank]
    simp only [rank]
    omega

theorem descends_stop {i : Nat} {pc : StopPc} {k : Cont} (h : step o s (.stop i pc k) ≠ []) :
    Descends o s (.stop i pc k) := by
  cases pc with
  | doOnce g =>
      by_cases hg : (s.sess i).gen = g
      · cases honce : (s.sess i).once with
        | fresh =>
            have hstep : step o s (.stop i (.doOnce g) k) =
                [(s.modSess i (fun x => { x with once := .running }),
                  [.stop i (.closeDone g) k])] := by
              simp [step, stopStep, hg, honce]
            exact descends_one hstep rfl (by simp [rank, stopRank]) (by simp [early])
        | running =>
            -- another call is in the body: this one waits, and has no step
            refine absurd ?_ h
            simp [step, stopStep, hg, honce]
        | finished =>
            have hstep : step o s (.stop i (.doOnce g) k) = [afterStop s i k] := by
              simp [step, stopStep, hg, honce]
            exact descends_afterStop hstep rfl
      · exact descends_afterStop (if_neg hg) rfl
  | readOnce | closeDone | attrClient =>
      exact descends_one rfl rfl (by simp [rank, stopRank]) (by simp [early])
  | attrIgnore g found =>
      by_cases hf : found ∧ (s.sess i).attrs.bind Attrs.ignoreReconnect = some false
      · exact descends_one (if_pos hf) rfl (by simp [rank, stopRank]) (by simp [early])
      · exact descends_one (if_neg hf) rfl (by simp [rank, stopRank]) (by simp [early])
  | reconnect g =>
      have hm : ¬ s.mutex = true := by simp [mutex_free h]
      refine descends_trigger (if_neg hm) ?_ ?_
      · have hle := rank_spawned (o := o) s.flight.runReconnect.2
        simp only [List.map_cons, List.sum_cons, rank, stopRank]
        omega
      · intro b hb
        rcases List.mem_cons.mp hb with rfl | hb
        · rfl
        · exact early_spawned _ b hb
  | finish g => exact descends_afterStop rfl rfl

private theorem rank_numReturn (num : Nat) (k : NumCaller) :
    ((numReturn o s num k).2.map (rank o)).sum ≤ numRank o k := by
  cases k with
  | alone => simp [numReturn]
  | before ch n a =>
      simp only [numReturn]
      split <;> simp [endPass, rank, numRank, dialRank]
  | after ch n a =>
      have hpass := three_le_passRank o a
      simp only [numReturn]
      split
      · simp [endPass, rank, numRank]
        omega
      · simp [rank, numRank]

private theorem early_numReturn (num : Nat) (k : NumCaller) :
    ∀ b ∈ (numReturn o s num k).2, early b = false := by
  cases k with
  | alone => simp [numReturn]
  | _ =>
      simp only [numReturn]
      split <;> simp [endPass, early]

private theorem pending_numReturn (num : Nat) (k : NumCaller) :
    (numReturn o s num k).1.flight.reconnectPending = s.flight.reconnectPending := by
  cases k with
  | alone => rfl
  | _ =>
      simp only [numReturn]
      split <;> rfl

private theorem descends_num (hs : Inv o s) {k : NumCaller} {todo : Option (List Nat)}
    (h : step o s (.sessionNum k todo) ≠ []) : Descends o s (.sessionNum k todo) := by
  cases todo with
  | none =>
      have hm : ¬ s.mutex = true := by simp [mutex_free h]
      refine descends_one (if_neg hm) rfl ?_ (by simp [early])
      have hcap := hs.cap
      simp [rank]
      omega
  | some todo =>
      cases todo with
      | nil =>
          refine descends_one rfl (pending_numReturn _ k) ?_ (early_numReturn _ k)
          have hle := rank_numReturn (o := o) (s := s.unlock) s.pool.length k
          simp only [rank]
          omega
      | cons j todo =>
          refine descends_of (List.mem_map.mpr ⟨j, List.mem_cons_self .., rfl⟩) ?_ ?_ ?_
          · rw [visit_flight]
          · simp [rank]
          · simp [early]

private theorem descends_connect (hs : Inv o s) {k : Caller} {i : Nat} {pc : ConnPc}
    (hearly : early (.connect k i pc) = false) (h : step o s (.connect k i pc) ≠ []) :
    Descends o s (.connect k i pc) := by
  have hcap := hs.cap
  have hret := rank_connectReturn (o := o) k
  cases pc with
  | onOpen =>
      exact descends_of (List.mem_cons_self ..) rfl (by simp [rank, connRank]) (by simp [early])
  | lock =>
      have hm : ¬ s.mutex = true := by simp [mutex_free h]
      exact descends_one (if_neg hm) rfl (by simp [rank, connRank]) (by simp [early])
  | pool =>
      cases hmap : s.ssMap <;>
        exact descends_one (by simp [step, connectStep, hmap]; rfl) rfl (by simp [rank, connRank])
          (by simp [early])
  | active =>
      by_cases hact : s.active i = true
      · refine descends_one (if_pos hact) rfl ?_ (by simp [early])
        simp [rank, connRank]
        omega
      · refine descends_one (if_neg hact) rfl ?_ (by simp [early])
        simp [rank, connRank]
  | prune todo =>
      cases todo with
      | nil => exact descends_one rfl rfl (by simp [rank, connRank]) (by simp [early])
      | cons j todo =>
          refine descends_of (List.mem_map.mpr ⟨j, List.mem_cons_self .., rfl⟩) ?_ ?_ ?_
          · rw [visit_flight]
          · simp [rank, connRank]
          · simp [early]
  | addSession =>
      by_cases hfull : o.number ≤ s.pool.length
      · exact descends_one (if_pos hfull) rfl (by simp [rank, connRank]) (by simp [early])
      · exact descends_one (if_neg hfull) rfl (by simp [rank, connRank]) (by simp [early])
  | drop | dropIgnore => exact descends_one rfl rfl (by simp [rank, connRank]) (by simp [early])
  | unlock why =>
      cases why with
      | inactive =>
          refine descends_one rfl rfl ?_ (early_connectReturn k false)
          have := hret false
          simp only [rank, connRank]
          omega
      | gone | surplus =>
          refine descends_one rfl rfl ?_ (by simp [early])
          simp [rank, connRank, stopRank, contRank]
  | unlockTrue =>
      refine descends_one rfl rfl ?_ (early_connectReturn k true)
      have := hret true
      simp only [rank, connRank]
      omega
  | _ => cases hearly

/-- **Every thread that can take a step can take one that lowers the rank.** -/
theorem descends (hs : Inv o s) (hearly : early a = false) (h : step o s a ≠ []) :
    Descends o s a := by
  cases a with
  | trigger =>
      have hm : ¬ s.mutex = true := by simp [mutex_free h]
      refine descends_trigger (if_neg hm) ?_ (early_spawned _)
      have hle := rank_spawned (o := o) s.flight.runReconnect.2
      simp only [rank]
      omega
  | top ch =>
      have hm : ¬ s.mutex = true := by simp [mutex_free h]
      have hstep : step o s (.top ch) = [(s.enter s.flight.next.1,
          if s.flight.next.2 then [.pass ch s.flight.next.1.started 0] else [.closing ch])] :=
        if_neg hm
      refine ⟨_, _, by rw [hstep]; exact List.mem_singleton.mpr rfl, ?_, ?_⟩
      · have hzero := passRank_zero o
        cases hdone : s.flight.done <;> cases hpend : s.flight.reconnectPending <;>
          simp [rankSum, Shared.enter, Flight.next, hdone, hpend, rank] <;> omega
      · split <;> simp [early]
  | pass ch n a =>
      by_cases hmore : a < o.attempts ∧ s.flight.done = false
      · refine descends_one (if_pos hmore) rfl ?_ (by simp [early])
        have hsucc := passRank_succ o hmore.1
        simp [rank, numRank, failedRank]
        omega
      · refine descends_one (if_neg hmore) rfl ?_ (by simp [endPass, early])
        have hpass := three_le_passRank o a
        simp [endPass, rank]
        omega
  | failed ch n a =>
      by_cases hdone : s.flight.done = true
      · refine descends_one (if_pos hdone) rfl ?_ (by simp [endPass, early])
        simp [endPass, rank, failedRank]
        omega
      · refine descends_one (if_neg hdone) rfl ?_ (by simp [early])
        simp [rank, numRank, failedRank]
        omega
  | backoff ch n a =>
      refine descends_of (List.mem_append_right _ (List.mem_singleton.mpr rfl)) rfl ?_ ?_
      · simp [rank]
      · simp [early]
  | closing ch => exact descends_one rfl rfl (by simp [rank]) (by simp)
  | sessionNum k todo => exact descends_num hs h
  | dial k checked =>
      have hle := rank_dialReturn (o := o) k
      cases checked with
      | false =>
          by_cases hdone : s.flight.done = true
          · refine descends_one (if_pos hdone) rfl ?_ (early_connectReturn k false)
            simp only [rank]
            omega
          · exact descends_one (if_neg hdone) rfl (by simp [rank]) (by simp [early])
      | true =>
          -- the dial fails
          refine descends_of (List.mem_cons_self ..) rfl ?_ (early_connectReturn k false)
          simp only [rank]
          omega
  | connect k i pc => exact descends_connect hs hearly h
  | close =>
      cases honce : s.stopOnce with
      | fresh =>
          refine descends_one (by simp [step, honce]; rfl) rfl ?_ (by simp [early])
          simp [rank]
      | running => simp [step, honce] at h
      | finished =>
          refine descends_one (by simp [step, honce]; rfl) rfl ?_ (by simp)
          simp [rank]
  | closeSection =>
      have hm : ¬ s.mutex = true := by simp [mutex_free h]
      refine descends_one (if_neg hm) ?_ ?_ (by simp [early])
      · simp only [Shared.closePool, Flight.stop]
        split <;> rfl
      · have hle := Nat.mul_le_mul_right (pendingRank o + 12) hs.cap
        simp [rank, closeRank]
        omega
  | closeLoop todo =>
      cases todo with
      | nil => exact descends_one rfl rfl (by simp [rank, closeRank]) (by simp)
      | cons j todo =>
          refine descends_of (List.mem_map.mpr ⟨j, List.mem_cons_self .., rfl⟩) rfl ?_ ?_
          · simp [rank, closeRank, Nat.succ_mul]
            omega
          · simp [early]
  | closeDrop i rest => exact descends_one rfl rfl (by simp [rank]) (by simp [early])
  | closeDropIgnore i rest =>
      refine descends_one rfl rfl ?_ (by simp [early])
      simp [rank, stopRank, contRank]
      omega
  | stop i pc k => exact descends_stop h
  | gc i k =>
      refine descends_one rfl rfl ?_ ?_
      · cases k <;> simp [afterGc, rank, gcRank]
      · cases k <;> simp [afterGc, early]
  | readEOF i =>
      refine descends_one rfl rfl ?_ (by simp [early])
      simp [rank, stopRank, contRank]
  | reset i =>
      by_cases hres : (s.sess i).resetting = true
      · exact descends_one (if_pos hres) rfl (by simp [rank]) (by simp)
      · refine descends_one (if_neg hres) rfl ?_ (by simp [early])
        simp [rank, stopRank, contRank]
  | clear i => exact descends_one rfl rfl (by simp [rank]) (by simp)

/-- The thread is in a `connect` call whose session has lost its connection before `run`. -/
def Doomed (s : Shared) : Thread → Prop
  | .connect k i pc => early (.connect k i pc) = true ∧ (s.sess i).connection = false
  | _ => False

theorem not_doomed_of_early (h : early a = false) : ¬ Doomed s a := by
  cases a with
  | connect k i pc =>
      rintro ⟨hearly, -⟩
      rw [h] at hearly
      cases hearly
  | _ => exact id

private theorem doomed_of_connection {s' : Shared} {b : Thread}
    (h : ∀ j, (s'.sess j).connection = (s.sess j).connection) (hb : Doomed s' b) : Doomed s b := by
  cases b with
  | connect k i pc =>
      obtain ⟨hearly, hconn⟩ := hb
      exact ⟨hearly, (h i).symm.trans hconn⟩
  | _ => exact hb

private theorem modSess_connection (i : Nat) {f : Sess → Sess}
    (h : (f (s.sess i)).connection = (s.sess i).connection) (j : Nat) :
    ((s.modSess i f).sess j).connection = (s.sess j).connection := by
  by_cases hj : j = i
  · subst hj
    rw [modSess_self, h]
  · simp [Shared.modSess, hj]

/-- A `connect` call that does not panic goes on, and no session loses its connection. -/
private theorem descends_early (hearly : early a = true) (h : ¬ Doomed s a) :
    ∃ s' bs, (s', bs) ∈ step o s a ∧ rankSum o s' bs < rankSum o s [a] ∧
      (∀ b, Doomed s' b → Doomed s b) ∧ ∀ b ∈ bs, ¬ Doomed s' b := by
  cases a with
  | connect k i pc =>
      have hconn : (s.sess i).connection = true := by
        by_contra hno
        exact h ⟨hearly, by simpa using hno⟩
      have hone : ∀ {s' pc'}, (s', [.connect k i pc']) ∈ step o s (.connect k i pc) →
          s'.flight = s.flight → connRank o k pc' < connRank o k pc →
          (∀ j, (s'.sess j).connection = (s.sess j).connection) →
          ∃ s' bs, (s', bs) ∈ step o s (.connect k i pc) ∧
            rankSum o s' bs < rankSum o s [.connect k i pc] ∧
            (∀ b, Doomed s' b → Doomed s b) ∧ ∀ b ∈ bs, ¬ Doomed s' b := by
        intro s' pc' hstep hflight hrank hsame
        refine ⟨s', _, hstep, ?_, fun b => doomed_of_connection hsame, ?_⟩
        · exact rankSum_of_pending (by rw [hflight]) (by simpa [rank] using hrank)
        · refine List.forall_mem_singleton.mpr ?_
          rintro ⟨-, hno⟩
          rw [hsame i, hconn] at hno
          cases hno
      cases pc with
      | newSession =>
          -- the callback fails
          have hmem : (s.ret i false, connectReturn k false) ∈
              step o s (.connect k i .newSession) := by
            simp [step, connectStep, hconn]
          refine ⟨_, _, hmem, ?_, fun b => doomed_of_connection fun _ => rfl, fun b hb => ?_⟩
          · have hle := rank_connectReturn (o := o) k false
            refine rankSum_of_pending rfl ?_
            simp only [rank, connRank]
            omega
          · exact not_doomed_of_early (early_connectReturn k false b hb)
      | setClient | setIgnore =>
          refine hone (List.mem_singleton.mpr rfl) rfl (by simp [connRank]) ?_
          exact modSess_connection i rfl
      | run =>
          by_cases hres : (s.sess i).resetting = true
          · have hmem : (s.start i, [.connect k i .lock]) ∈ step o s (.connect k i .run) := by
              simp [step, connectStep, hres]
            exact hone hmem rfl (by simp [connRank]) fun _ => rfl
          · have hmem : (s.start i, [.connect k i .check]) ∈ step o s (.connect k i .run) := by
              simp [step, connectStep, hres]
            exact hone hmem rfl (by simp [connRank]) fun _ => rfl
      | check =>
          have hmem : (s, [.connect k i .onOpen]) ∈ step o s (.connect k i .check) := by
            simp [step, connectStep, hconn]
          exact hone hmem rfl (by simp [connRank]) fun _ => rfl
      | _ => cases hearly
  | _ => cases hearly

private theorem rankSum_lt {s' : Shared} {bs : List Thread} (l r : List Thread)
    (h : rankSum o s' bs < rankSum o s [a]) :
    rankSum o s' (l ++ bs ++ r) < rankSum o s (l ++ a :: r) := by
  simp only [rankSum, List.map_append, List.sum_append, List.map_cons, List.sum_cons,
    List.map_nil, List.sum_nil] at h ⊢
  omega

/-- The client while every reset worker that has closed its session waits. -/
def waiting (o : Options) : Prog Shared Thread where
  entry := entry
  step s a := if resets a then [] else step o s a

variable {c : Conf Shared Thread}

/-- What a move has to deliver. -/
private theorem move_of_step (hreach : (prog o).Reaches initial c) (ha : a ∈ c.pool)
    (hno : resets a = false) {s' : Shared} {bs : List Thread}
    (hstep : (s', bs) ∈ step o c.shared a)
    (hlt : rankSum o s' bs < rankSum o c.shared [a])
    (hsafe : ∀ b ∈ c.pool, ¬ Doomed s' b) (hnew : ∀ b ∈ bs, ¬ Doomed s' b) :
    ∃ m c', (waiting o).exec c m = some c' ∧
      ((prog o).Reaches initial c' ∧ ∀ b ∈ c'.pool, ¬ Doomed c'.shared b) ∧
      rankSum o c'.shared c'.pool < rankSum o c.shared c.pool := by
  obtain ⟨l, r, hlr⟩ := List.append_of_mem ha
  have hwaiting : (s', bs) ∈ (waiting o).step c.shared a := by
    simp only [waiting, hno, Bool.false_eq_true, if_false]
    exact hstep
  obtain ⟨m, hm⟩ := exec_fire (p := waiting o) l r hwaiting
  obtain ⟨m', hm'⟩ := exec_fire (p := prog o) l r hstep
  have hmove : (waiting o).exec c m = some ⟨s', l ++ bs ++ r⟩ := by rw [← hm, ← hlr]
  have hmove' : (prog o).exec c m' = some ⟨s', l ++ bs ++ r⟩ := by rw [← hm', ← hlr]
  refine ⟨m, _, hmove, ⟨hreach.snoc hmove', fun b hb => ?_⟩, ?_⟩
  · rw [hlr] at hsafe
    simp only [List.mem_append] at hb
    rcases hb with (hb | hb) | hb
    · exact hsafe b (by simp [hb])
    · exact hnew b hb
    · exact hsafe b (by simp [hb])
  · rw [hlr]
    exact rankSum_lt l r hlt

private theorem resets_of_early (h : early a = true) : resets a = false := by
  cases a with
  | gc | clear => cases h
  | _ => rfl

/-- As long as somebody else is there, a move is possible that lowers the rank. -/
private theorem exists_move (hreach : (prog o).Reaches initial c)
    (hsafe : ∀ a ∈ c.pool, ¬ Doomed c.shared a) (hgoal : ¬ ∀ a ∈ c.pool, resets a = true) :
    ∃ m c', (waiting o).exec c m = some c' ∧
      ((prog o).Reaches initial c' ∧ ∀ b ∈ c'.pool, ¬ Doomed c'.shared b) ∧
      rankSum o c'.shared c'.pool < rankSum o c.shared c.pool := by
  by_cases hex : ∃ a ∈ c.pool, early a = true
  · -- first the `connect` calls that have not got to `run` yet
    obtain ⟨a, ha, hearly⟩ := hex
    obtain ⟨s', bs, hstep, hlt, hkeep, hnew⟩ := descends_early (o := o) hearly (hsafe a ha)
    exact move_of_step hreach ha (resets_of_early hearly) hstep hlt
      (fun b hb hdoom => hsafe b hb (hkeep b hdoom)) hnew
  · -- then whoever can take a step
    have hlate : ∀ b ∈ c.pool, early b = false := by
      intro b hb
      by_contra hearly
      exact hex ⟨b, hb, by simpa using hearly⟩
    push Not at hgoal
    obtain ⟨a, ha, hno⟩ := hgoal
    obtain ⟨b, hb, hbno, -, hready⟩ := waits_for_ready hreach ha (by simpa using hno)
    have hstep : step o c.shared b ≠ [] := by
      rcases hready with hstep | ⟨k, i, rfl, -⟩
      · exact hstep
      · cases hlate _ hb
    obtain ⟨s', bs, hmem, hlt, hnew⟩ := descends (holds_reaches hreach).shared (hlate b hb) hstep
    exact move_of_step hreach hb hbno hmem hlt (fun d hd => not_doomed_of_early (hlate d hd))
      fun d hd => not_doomed_of_early (hnew d hd)

/-- **All goroutines but the reset workers can run to their end**, and need none of them. -/
theorem comes_to_rest (h : (prog o).Reaches initial c) (hsafe : ∀ a ∈ c.pool, ¬ Doomed c.shared a) :
    ∃ d, (waiting o).Reaches c d ∧ ∀ a ∈ d.pool, resets a = true := by
  obtain ⟨d, hd, -, hrest⟩ := reaches_of_measure
    (fun c => (prog o).Reaches initial c ∧ ∀ a ∈ c.pool, ¬ Doomed c.shared a)
    (fun c => ∀ a ∈ c.pool, resets a = true) (fun c => rankSum o c.shared c.pool)
    (fun c hc => exists_move hc.1 hc.2) ⟨h, hsafe⟩
  exact ⟨d, hd, hrest⟩

end Ends

/-- **The client never deadlocks.**  In every reachable configuration, a goroutine of the
client or one that closes a session can take a step, or it waits for the mutex, for the body
of a session's `once` or for that of the client's, and the goroutine that it waits for,
directly or through others, can take a step or is about to panic.  Unless a session has lost
its connection before its `run`, they can all run to their end.  Reset workers past their
`stop` are left out: they wait for the goroutines, the lifecycle and `packetLock` of their
session.  But nobody waits for them. -/
theorem client_never_deadlocks (o : Options) (c : Conf Shared Thread)
    (h : (prog o).Reaches initial c) :
    (∀ a ∈ c.pool, resets a = false → ∃ b ∈ c.pool, resets b = false ∧
      Relation.ReflTransGen (Waits c.shared) a b ∧
      (step o c.shared b ≠ [] ∨ Panics c.shared b)) ∧
      ((∀ a ∈ c.pool, ¬ Doomed c.shared a) →
        ∃ d, (waiting o).Reaches c d ∧ ∀ a ∈ d.pool, resets a = true) :=
  ⟨fun _ ha hno => waits_for_ready h ha hno, comes_to_rest h⟩

/-- `sessionNum` holds the mutex; a dying session waits for it, and its second `stop` for the
first; `Close` waits for the mutex, and a second `Close` for the first.  A reset worker that
has closed another session waits, too.  All the others end. -/
theorem client_never_deadlocks_chain :
    ∃ c, (prog ⟨1, 0, 0⟩).Reaches initial c ∧
      c.pool = [.gc 1 .reset, .stop 0 (.reconnect 0) .ret, .stop 0 (.doOnce 0) .ret,
        .sessionNum .alone (some [0]), .closeSection, .close] ∧
      c.pool.map (fun a => ((waiting ⟨1, 0, 0⟩).step c.shared a).length) = [0, 0, 0, 1, 0, 0] ∧
      ∃ d, (waiting ⟨1, 0, 0⟩).Reaches c d ∧ ∀ a ∈ d.pool, resets a = true := by
  have hrun : ∃ c ∈ (prog ⟨1, 0, 0⟩).run initial (List.flatten
      [[.start (.dial .alone false), .fire 0 0, .fire 0 1], List.replicate 12 (.fire 0 0),
        [.start (.dial .alone false), .fire 0 0, .fire 0 1], List.replicate 21 (.fire 0 0),
        [.start (.reset 1)], List.replicate 3 (.fire 0 0),
        [.start (.stop 0 .readOnce .ret)], List.replicate 5 (.fire 1 0),
        [.start (.stop 0 .readOnce .ret), .fire 2 0, .start (.sessionNum .alone none), .fire 3 0,
          .start .close, .fire 4 0, .start .close]]),
      c.pool = [.gc 1 .reset, .stop 0 (.reconnect 0) .ret, .stop 0 (.doOnce 0) .ret,
        .sessionNum .alone (some [0]), .closeSection, .close] ∧
      c.pool.map (fun a => ((waiting ⟨1, 0, 0⟩).step c.shared a).length) =
        [0, 0, 0, 1, 0, 0] := by
    decide +kernel
  obtain ⟨c, hc, hpool, hsteps⟩ := hrun
  refine ⟨c, ⟨_, hc⟩, hpool, hsteps, (client_never_deadlocks ⟨1, 0, 0⟩ c ⟨_, hc⟩).2 ?_⟩
  intro a ha
  refine not_doomed_of_early ?_
  rw [hpool] at ha
  simp only [List.mem_cons, List.not_mem_nil, or_false] at ha
  rcases ha with rfl | rfl | rfl | rfl | rfl | rfl <;> rfl

end Getty.Transport.ClientPool.Progress
