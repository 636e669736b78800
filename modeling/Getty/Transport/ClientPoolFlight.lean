import Getty.Transport.ClientPool

/-!
# The client runs the reconnect protocol

`SingleFlight.prog` knows only the reconnect fields, and a pass there is one
step.  In the client a pass is everything `reConnect` calls: `sessionNum`, the
dial, `connect` with the sessions it closes, the back-off.  Seen from the
reconnect fields all of that is idle, and what is left are exactly the steps of
the protocol; so its invariant holds in the client as well.

## Main results

* `flightSimulation` — the simulation of the client by the protocol.
* `flight_inv` — the protocol's invariant in every reachable configuration.
-/

namespace Getty.Transport.ClientPool

open Getty.Verified.ThreadPool
open Getty.Transport.Reconnect (Options)

/-! ## Threads of the client in the reconnect protocol -/

/-- The pass a caller of `connect` is in. -/
def Caller.flight : Caller → List SingleFlight.Thread
  | .alone => []
  | .loop ch n _ => [.pass ch n]

def NumCaller.flight : NumCaller → List SingleFlight.Thread
  | .alone => []
  | .before ch n _ => [.pass ch n]
  | .after ch n _ => [.pass ch n]

def Cont.flight : Cont → List SingleFlight.Thread
  | .opening k => k.flight
  | .dropped k => k.flight
  | _ => []

/-- What a thread of the client is for the reconnect fields: everything `reConnect`
calls belongs to its pass. -/
def Thread.flight : Thread → List SingleFlight.Thread
  | .trigger => [.trigger]
  | .top ch => [.top ch]
  | .pass ch n _ => [.pass ch n]
  | .failed ch n _ => [.pass ch n]
  | .backoff ch n _ => [.pass ch n]
  | .closing ch => [.closing ch]
  | .sessionNum k _ => k.flight
  | .dial k _ => k.flight
  | .connect k _ _ => k.flight
  | .stop _ _ k => k.flight
  | .gc _ (.opening k) => k.flight
  | _ => []

/-! ## Steps -/

section Steps

variable {o : Options} {s s' : Shared} {a : Thread} {bs : List Thread}

/-- One step of a client thread, seen from the reconnect fields. -/
def Traces (s : Shared) (a : Thread) (s' : Shared) (bs : List Thread) : Prop :=
  ∀ pool, SingleFlight.prog.Leads ⟨s.flight, a.flight ++ pool⟩
    ⟨s'.flight, bs.flatMap Thread.flight ++ pool⟩

/-- Most steps are none. -/
theorem traces_silent (hf : s'.flight = s.flight) (ht : bs.flatMap Thread.flight = a.flight) :
    Traces s a s' bs := by
  intro pool
  rw [hf, ht]
  exact .refl _ _

theorem flight_connectReturn (k : Caller) (ok : Bool) :
    (connectReturn k ok).flatMap Thread.flight = k.flight := by
  cases k with
  | alone => rfl
  | loop ch n a => cases ok <;> rfl

theorem flight_spawned (ch : Option Nat) :
    (spawned ch).flatMap Thread.flight =
      match ch with
      | some ch => [.top ch]
      | none => [] := by
  cases ch <;> rfl

theorem visit_flight (s : Shared) (j : Nat) : (s.visit j).flight = s.flight := by
  unfold Shared.visit
  split <;> rfl

theorem traces_endPass {ch n : Nat} (ha : a.flight = [.pass ch n]) :
    Traces s a (endPass s ch n).1 (endPass s ch n).2 := by
  intro pool
  rw [ha]
  exact .fire pool (List.mem_singleton.mpr rfl)

private theorem traces_afterStop (s : Shared) (i : Nat) (pc : StopPc) (k : Cont) :
    Traces s (.stop i pc k) (afterStop s i k).1 (afterStop s i k).2 := by
  cases k with
  | dropped k => exact traces_silent rfl (flight_connectReturn k false)
  | opening k => exact traces_silent rfl (List.append_nil _)
  | _ => exact traces_silent rfl rfl

theorem traces_stopStep {i : Nat} {pc : StopPc} {k : Cont} (h : (s', bs) ∈ stopStep s i k pc) :
    Traces s (.stop i pc k) s' bs := by
  have hone : ∀ pc', [Thread.stop i pc' k].flatMap Thread.flight = (Thread.stop i pc k).flight :=
    fun _ => List.append_nil _
  cases pc with
  | doOnce g =>
      simp only [stopStep] at h
      split at h
      · split at h
        · cases List.mem_singleton.mp h
          exact traces_silent rfl (hone _)
        · cases h
        · obtain ⟨rfl, rfl⟩ := Prod.ext_iff.mp (List.mem_singleton.mp h)
          exact traces_afterStop _ _ _ _
      · obtain ⟨rfl, rfl⟩ := Prod.ext_iff.mp (List.mem_singleton.mp h)
        exact traces_afterStop _ _ _ _
  | attrIgnore g found =>
      simp only [stopStep] at h
      split at h <;> cases List.mem_singleton.mp h <;> exact traces_silent rfl (hone _)
  | reconnect g =>
      obtain ⟨-, h⟩ := mem_blocked h
      cases h
      intro pool
      -- the close sequence calls `runReconnect` as any other trigger does
      have hspawn : SingleFlight.prog.Leads ⟨s.flight, k.flight ++ pool⟩
          ⟨s.flight.runReconnect.1,
            (spawned s.flight.runReconnect.2).flatMap Thread.flight ++ (k.flight ++ pool)⟩ := by
        refine .spawn _ (show SingleFlight.prog.entry s.flight .trigger = true from rfl)
          (List.mem_singleton.mpr ?_)
        exact Prod.ext rfl (flight_spawned _)
      refine hspawn.trans (.of_equiv ⟨rfl, ?_⟩)
      simp only [List.flatMap_cons]
      rw [← List.append_assoc]
      exact List.perm_append_comm.append_right pool
  | finish g =>
      obtain ⟨rfl, rfl⟩ := Prod.ext_iff.mp (List.mem_singleton.mp h)
      exact traces_afterStop (s.modSess i (fun x => x.finishOnce g)) i (.finish g) k
  | _ =>
      cases List.mem_singleton.mp h
      exact traces_silent rfl (hone _)

private theorem traces_connectStep {k : Caller} {i : Nat} {pc : ConnPc}
    (h : (s', bs) ∈ connectStep o s k i pc) : Traces s (.connect k i pc) s' bs := by
  have hone : k.flight ++ [] = k.flight := List.append_nil _
  cases pc with
  | newSession =>
      rcases mem_newSession h with h | h <;> cases h
      · exact traces_silent rfl hone
      · exact traces_silent rfl (flight_connectReturn k false)
  | onOpen =>
      rcases List.mem_pair.mp h with h | h <;> cases h <;> exact traces_silent rfl hone
  | prune todo =>
      cases todo with
      | nil =>
          cases List.mem_singleton.mp h
          exact traces_silent rfl hone
      | cons j₀ todo =>
          obtain ⟨j, -, hout⟩ := List.mem_map.mp h
          cases hout
          exact traces_silent (visit_flight s j) hone
  | unlock why =>
      cases why <;> cases List.mem_singleton.mp h
      · exact traces_silent rfl hone
      · exact traces_silent rfl (flight_connectReturn k false)
      · exact traces_silent rfl hone
  | unlockTrue =>
      cases List.mem_singleton.mp h
      exact traces_silent rfl (flight_connectReturn k true)
  | run =>
      simp only [connectStep] at h
      split at h <;> cases List.mem_singleton.mp h <;> exact traces_silent rfl hone
  | check =>
      obtain ⟨-, h⟩ := mem_guarded h
      cases h
      exact traces_silent rfl hone
  | lock =>
      obtain ⟨-, h⟩ := mem_blocked h
      cases h
      exact traces_silent rfl hone
  | pool =>
      simp only [connectStep] at h
      split at h <;> cases List.mem_singleton.mp h <;> exact traces_silent rfl hone
  | active =>
      simp only [connectStep] at h
      split at h <;> cases List.mem_singleton.mp h <;> exact traces_silent rfl hone
  | addSession =>
      simp only [connectStep] at h
      split at h <;> cases List.mem_singleton.mp h <;> exact traces_silent rfl hone
  | _ =>
      cases List.mem_singleton.mp h
      exact traces_silent rfl hone

private theorem traces_numStep {k : NumCaller} {todo : Option (List Nat)}
    (h : (s', bs) ∈ numStep o s k todo) : Traces s (.sessionNum k todo) s' bs := by
  have hone : k.flight ++ [] = k.flight := List.append_nil _
  match todo with
  | none =>
      obtain ⟨-, h⟩ := mem_blocked h
      cases h
      exact traces_silent rfl hone
  | some [] =>
      obtain ⟨rfl, rfl⟩ := Prod.ext_iff.mp (List.mem_singleton.mp h)
      cases k with
      | alone => exact traces_silent rfl rfl
      | before ch n a =>
          simp only [numReturn]
          split
          · exact traces_endPass rfl
          · exact traces_silent rfl rfl
      | after ch n a =>
          simp only [numReturn]
          split
          · exact traces_endPass rfl
          · exact traces_silent rfl rfl
  | some (j₀ :: todo) =>
      obtain ⟨j, -, hout⟩ := List.mem_map.mp h
      cases hout
      exact traces_silent (visit_flight s j) hone

/-- **Step lemma** of the simulation. -/
theorem traces_step (h : (s', bs) ∈ step o s a) : Traces s a s' bs := by
  cases a with
  | trigger =>
      obtain ⟨-, h⟩ := mem_blocked h
      cases h
      intro pool
      rw [flight_spawned]
      exact .fire pool (List.mem_singleton.mpr rfl)
  | top ch =>
      obtain ⟨-, h⟩ := mem_blocked h
      cases h
      intro pool
      refine .fire pool (List.mem_singleton.mpr ?_)
      refine Prod.ext rfl ?_
      dsimp only
      split <;> rfl
  | pass ch n a =>
      simp only [step] at h
      split at h <;> cases List.mem_singleton.mp h
      · exact traces_silent rfl rfl
      · exact traces_endPass rfl
  | failed ch n a =>
      simp only [step] at h
      split at h <;> cases List.mem_singleton.mp h
      · exact traces_endPass rfl
      · exact traces_silent rfl rfl
  | backoff ch n a =>
      rcases List.mem_append.mp h with h | h
      · split at h
        · cases List.mem_singleton.mp h
          exact traces_endPass rfl
        · cases h
      · cases List.mem_singleton.mp h
        exact traces_silent rfl rfl
  | closing ch =>
      cases List.mem_singleton.mp h
      intro pool
      exact .fire pool (List.mem_singleton.mpr rfl)
  | sessionNum k todo => exact traces_numStep h
  | dial k checked =>
      have hone : k.flight ++ [] = k.flight := List.append_nil _
      cases checked with
      | false =>
          simp only [step] at h
          split at h <;> cases List.mem_singleton.mp h
          · exact traces_silent rfl (flight_connectReturn k false)
          · exact traces_silent rfl hone
      | true =>
          rcases List.mem_pair.mp h with h | h <;> cases h
          · exact traces_silent rfl (flight_connectReturn k false)
          · exact traces_silent rfl hone
  | connect k i pc => exact traces_connectStep h
  | close =>
      simp only [step] at h
      split at h
      · cases List.mem_singleton.mp h
        exact traces_silent rfl rfl
      · cases h
      · cases List.mem_singleton.mp h
        exact traces_silent rfl rfl
  | closeSection =>
      obtain ⟨-, h⟩ := mem_blocked h
      cases h
      intro pool
      exact .spawn pool (show SingleFlight.prog.entry s.flight .stop = true from rfl)
        (List.mem_singleton.mpr rfl)
  | closeLoop todo =>
      cases todo with
      | nil =>
          cases List.mem_singleton.mp h
          exact traces_silent rfl rfl
      | cons i₀ todo =>
          obtain ⟨i, -, hout⟩ := List.mem_map.mp h
          cases hout
          exact traces_silent rfl rfl
  | stop i pc k => exact traces_stopStep h
  | gc i k =>
      cases List.mem_singleton.mp h
      cases k with
      | opening k => exact traces_silent rfl (List.append_nil _)
      | _ => exact traces_silent rfl rfl
  | reset i =>
      simp only [step] at h
      split at h <;> cases List.mem_singleton.mp h <;> exact traces_silent rfl rfl
  | _ =>
      cases List.mem_singleton.mp h
      exact traces_silent rfl rfl

end Steps

/-! ## The simulation -/

/-- **The client runs the reconnect protocol**: on the reconnect fields its steps
are those of `SingleFlight.prog`. -/
def flightSimulation (o : Options) : Simulation (prog o) SingleFlight.prog where
  shared s := s.flight
  thread := Thread.flight
  entry s a pool h := by
    cases a with
    | trigger =>
        exact .start pool (show SingleFlight.prog.entry s.flight .trigger = true from rfl)
    | sessionNum k todo =>
        cases k with
        | alone => simpa [Thread.flight, NumCaller.flight] using Prog.Leads.refl _ _
        | _ => simp [prog, entry] at h
    | dial k checked =>
        cases k with
        | alone => simpa [Thread.flight, Caller.flight] using Prog.Leads.refl _ _
        | _ => simp [prog, entry] at h
    | stop i pc k =>
        cases k with
        | opening k => simp [prog, entry] at h
        | dropped k => simp [prog, entry] at h
        | _ => simpa [Thread.flight, Cont.flight] using Prog.Leads.refl _ _
    | close => simpa [Thread.flight] using Prog.Leads.refl _ _
    | readEOF i | reset i => simpa [Thread.flight] using Prog.Leads.refl _ _
    | _ => simp [prog, entry] at h
  step s a s' bs pool h := traces_step h pool

/-- The reconnect fields of the client keep the invariant of `SingleFlight`. -/
theorem flight_inv {o : Options} {c : Conf Shared Thread} (h : (prog o).Reaches initial c) :
    SingleFlight.Inv c.shared.flight := by
  obtain ⟨d, hd, heq, -⟩ := (flightSimulation o).reaches h
  have hinv := SingleFlight.inv_reaches hd
  rw [heq] at hinv
  exact hinv

end Getty.Transport.ClientPool
