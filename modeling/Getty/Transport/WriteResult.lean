import Getty.Transport.SessionLifecycle
import Getty.Transport.WriteCount

/-!
# What a write reports about a session that may be closing

The writes of `Session.prog`, now with their packages and their results.  A call takes
the steps of `Session.writeStep`, in any state of the session and between the steps of
everything else that goes on in it; where it leaves early it has the result of that exit,
and where it sends it has the result that `WriteCount` computes from the outcomes of the
socket.  `returns` records the results of the calls that have returned.

## Main results

* `simulation` — a session with results only reaches what `Session.prog` reaches.
* `write_success_is_delivery_iff` — a returned call has reported the truth, unless it is a
  `Send` that found no connection.
-/

namespace Getty.Transport.WriteResult

open Getty.Verified.ThreadPool
open Getty.Transport.Session (WriteKind WritePc)
open Getty.Transport.WriteCount (Cfg Call Outcome Result WriteErr)

/-! ## Calls with results -/

/-- What a call has come to: whether it found a connection to send to, its count and
error, and what the connection accepted. -/
structure Out where
  found : Bool
  result : Result
  accepted : Bytes
  deriving Repr, DecidableEq

structure Return where
  call : Call
  out : Out
  deriving Repr, DecidableEq

structure Shared where
  sess : Session.Shared
  returns : List Return

/-- A call in progress.  `outcomes` are those of the socket when it sends, `out` what it
is going to return. -/
structure Writer where
  call : Call
  outcomes : List Outcome
  pc : WritePc
  out : Option Out
  deriving Repr, DecidableEq

inductive Thread where
  | sess (th : Session.Thread)
  | call (w : Writer)
  deriving Repr, DecidableEq

/-- The kind of write a call is.  A batch of one is a `WriteBytes`, which tests the
closed flag once more. -/
def kindOf (cfg : Cfg) (call : Call) : WriteKind :=
  let exclusive := call.method.exclusive cfg.kind.type
  match call with
  | .writeBytes _ => .bytes exclusive
  | .writeBytesArray [_] => .bytes exclusive
  | .writeBytesArray _ => .batch exclusive
  | .writePkg _ _ _ => .pkg exclusive
  | .send _ => .send

/-- `Send` does not test whether the session is closed. -/
def firstPc : Call → WritePc
  | .send _ => .lock none none
  | _ => .closedCheck

/-! ## Results -/

/-- `ErrSessionClosed`. -/
def closed : Out := ⟨false, ⟨0, some .sessionClosed⟩, []⟩

/-- The result of a call that finds `s.Connection` nil. -/
def notFound : Call → Out
  | .send _ => ⟨false, ⟨0, none⟩, []⟩
  | _ => closed

/-- The `Writer` has returned an error, or panicked. -/
def encodeFailed : Call → Out
  | .writePkg enc _ _ => ⟨false, ⟨0, some (.encode (enc.err.getD "panic"))⟩, []⟩
  | _ => closed

/-- The result of the sends. -/
def sent (cfg : Cfg) (w : Writer) : Out :=
  let out := w.call.run cfg.conn ⟨w.outcomes, [], false⟩
  ⟨true, out.1, out.2.accepted⟩

/-- What a call is going to return, after a step that has left the threads `bs`. -/
def resolve (cfg : Cfg) (w : Writer) (bs : List Session.Thread) : Option Out :=
  match w.pc, bs with
  | .closedCheck, [] => some closed
  | .acquire _, [] => some closed
  | .connFirst, [] => some closed
  | .encoding _, [.write _ (.release _)] => some (encodeFailed w.call)
  | .conn _ _, [.write _ (.unlock _ _)] => some (notFound w.call)
  | .send _ _ _, _ => some (sent cfg w)
  | _, _ => w.out

/-- The package could not be encoded. -/
def encodeErr : Call → Bool
  | .writePkg enc _ _ => enc.err.isSome
  | _ => false

/-- The outcomes of a session's write that this call can have.  Only UDP turns a batch
into a `WriteBytes`, and a package that could not be encoded is not sent. -/
def follows (cfg : Cfg) (w : Writer) : List Session.Thread → Bool
  | [] => true
  | [.write k (.lock (some _) none)] => k == kindOf cfg w.call && !encodeErr w.call
  | [.write k _] => k == kindOf cfg w.call
  | _ => false

/-! ## Steps -/

/-- The call goes on, or returns. -/
def advance (cfg : Cfg) (s : Shared) (w : Writer) (x : Session.Shared) :
    List Session.Thread → Shared × List Thread
  | [.write k pc] =>
      (⟨x, s.returns⟩, [.call { w with pc := pc, out := resolve cfg w [.write k pc] }])
  | bs => (⟨x, s.returns ++ [⟨w.call, (resolve cfg w bs).getD closed⟩]⟩, [])

def callStep (cfg : Cfg) (s : Shared) (w : Writer) : List (Shared × List Thread) :=
  ((Session.writeStep s.sess (kindOf cfg w.call) w.pc).filter (fun out => follows cfg w out.2)).map
    (fun out => advance cfg s w out.1 out.2)

def step (cfg : Cfg) (s : Shared) : Thread → List (Shared × List Thread)
  | .sess th => liftOutcomes (fun x _ => ⟨x, s.returns⟩) .sess (Session.step s.sess th)
  | .call w => callStep cfg s w

def entry (s : Shared) : Thread → Bool
  | .sess th => Session.entry s.sess th
  | .call w => w.pc == firstPc w.call && w.out == none

def prog (cfg : Cfg) : Prog Shared Thread where
  entry := entry
  step := step cfg

def initial (scfg : Session.Config) : Conf Shared Thread := ⟨⟨Session.Shared.init scfg, []⟩, []⟩

/-! ## The session below -/

/-- What the session sees of a thread. -/
def Thread.below (cfg : Cfg) : Thread → Session.Thread
  | .sess th => th
  | .call w => .write (kindOf cfg w.call) w.pc

theorem mem_callStep {cfg : Cfg} {s s' : Shared} {w : Writer} {bs : List Thread}
    (h : (s', bs) ∈ callStep cfg s w) :
    ∃ x ys, (x, ys) ∈ Session.writeStep s.sess (kindOf cfg w.call) w.pc ∧
      follows cfg w ys = true ∧ (s', bs) = advance cfg s w x ys := by
  obtain ⟨⟨x, ys⟩, hmem, heq⟩ := List.mem_map.mp h
  obtain ⟨hmem, hfollows⟩ := List.mem_filter.mp hmem
  exact ⟨x, ys, hmem, hfollows, heq.symm⟩

/-- A call goes on as the same write, or returns. -/
theorem follows_cases {cfg : Cfg} {w : Writer} {ys : List Session.Thread}
    (h : follows cfg w ys = true) :
    ys = [] ∨ ∃ pc, ys = [.write (kindOf cfg w.call) pc] := by
  unfold follows at h
  split at h
  · exact Or.inl rfl
  · simp only [Bool.and_eq_true, beq_iff_eq] at h
    exact Or.inr ⟨_, by rw [h.1]⟩
  · simp only [beq_iff_eq] at h
    exact Or.inr ⟨_, by rw [h]⟩
  · cases h

private theorem entry_firstPc (cfg : Cfg) (s : Session.Shared) (call : Call) :
    Session.entry s (.write (kindOf cfg call) (firstPc call)) = true := by
  cases call with
  | send pkg => rfl
  | _ =>
      simp only [firstPc]
      cases kindOf cfg _ <;> rfl

/-- **Results do not change what a session does.** -/
def simulation (cfg : Cfg) : Simulation (prog cfg) Session.prog where
  shared := Shared.sess
  thread a := [a.below cfg]
  entry := by
    intro s a pool h
    have hentry : Session.prog.entry s.sess (a.below cfg) = true := by
      cases a with
      | sess th => exact h
      | call w =>
          simp only [prog, entry, Bool.and_eq_true, beq_iff_eq] at h
          rw [Thread.below, h.1]
          exact entry_firstPc cfg s.sess w.call
    exact .start pool hentry
  step := by
    intro s a s' bs pool h
    cases a with
    | sess th =>
        simp only [prog, step] at h
        obtain ⟨x, ys, hstep, rfl, rfl⟩ := mem_liftOutcomes h
        rw [flatMap_map_below fun _ _ => rfl]
        exact .fire pool hstep
    | call w =>
        obtain ⟨x, ys, hstep, hfollows, heq⟩ := mem_callStep h
        have hbelow : s'.sess = x ∧ bs.flatMap (fun a => [a.below cfg]) = ys := by
          rcases follows_cases hfollows with rfl | ⟨pc, rfl⟩
          · cases heq
            exact ⟨rfl, rfl⟩
          · cases heq
            exact ⟨rfl, rfl⟩
        rw [hbelow.1, hbelow.2]
        exact .fire pool hstep

/-! ## The truth of the results -/

/-- A nil error means that everything was accepted. -/
def Out.Honest (call : Call) (o : Out) : Prop :=
  o.result.err = none → o.accepted = call.payload

/-- A `Send` that found no connection has reported success and sent nothing; every other
call has told the truth. -/
def Return.Fair (r : Return) : Prop :=
  match r.call with
  | .send _ => if r.out.found then r.out.Honest r.call
      else r.out.result.err = none ∧ r.out.accepted = []
  | call => r.out.Honest call

/-- `Send` never is before `packetLock` but at its start. -/
def WritePc.early : WritePc → Bool
  | .closedCheck => true
  | .snapshot => true
  | .acquire _ => true
  | .encode _ => true
  | .encoding _ => true
  | .connFirst => true
  | _ => false

/-- The call has its result. -/
def WritePc.settled : WritePc → Bool
  | .unlock _ _ => true
  | .release _ => true
  | _ => false

/-- What holds of a call in progress. -/
structure Fits (w : Writer) : Prop where
  send : ∀ pkg, w.call = .send pkg → WritePc.early w.pc = false
  out : WritePc.settled w.pc = true → ∃ o, w.out = some o ∧ (Return.mk w.call o).Fair

theorem honest_of_err {call : Call} {o : Out} {e : WriteErr} (h : o.result.err = some e) :
    o.Honest call := by
  intro hnone
  rw [h] at hnone
  cases hnone

/-- The sends deliver everything, or report an error. -/
private theorem sent_honest (cfg : Cfg) (w : Writer) : (sent cfg w).Honest w.call := by
  intro hnone
  obtain ⟨x, -, hacc, hall, -⟩ := (WriteCount.run_wrote cfg w.call ⟨w.outcomes, [], false⟩).sent
  rw [← hall hnone]
  exact hacc.trans (List.nil_append x)

private theorem fair_sent (cfg : Cfg) (w : Writer) : (Return.mk w.call (sent cfg w)).Fair := by
  have h := sent_honest cfg w
  unfold Return.Fair
  split
  · exact h
  · exact h

private theorem fair_notFound (call : Call) : (Return.mk call (notFound call)).Fair := by
  cases call with
  | send pkg => exact ⟨rfl, rfl⟩
  | _ => exact honest_of_err rfl

/-- An early exit is not one of `Send`. -/
private theorem fair_of_err {call : Call} {o : Out} {e : WriteErr} (hsend : ∀ pkg, call ≠ .send pkg)
    (h : o.result.err = some e) : (Return.mk call o).Fair := by
  cases call with
  | send pkg => exact absurd rfl (hsend pkg)
  | _ => exact honest_of_err h

private theorem fair_encodeFailed {call : Call} (hsend : ∀ pkg, call ≠ .send pkg) :
    (Return.mk call (encodeFailed call)).Fair := by
  cases call with
  | send pkg => exact absurd rfl (hsend pkg)
  | _ => exact honest_of_err rfl

theorem not_send_of_early {w : Writer} (hw : Fits w) (h : WritePc.early w.pc = true)
    (pkg : WriteCount.Arg) : w.call ≠ .send pkg := by
  intro hsend
  rw [hw.send pkg hsend] at h
  cases h

/-- What a call returns is fair. -/
theorem fair_return {cfg : Cfg} {s : Session.Shared} {k : WriteKind} {w : Writer} (hw : Fits w)
    {x : Session.Shared} (h : (x, []) ∈ Session.writeStep s k w.pc) :
    (Return.mk w.call ((resolve cfg w []).getD closed)).Fair := by
  have hkeep : WritePc.settled w.pc = true → resolve cfg w [] = w.out →
      (Return.mk w.call ((resolve cfg w []).getD closed)).Fair := by
    intro hsettled hres
    obtain ⟨o, ho, hfair⟩ := hw.out hsettled
    rw [hres, ho]
    exact hfair
  have hexit : WritePc.early w.pc = true → resolve cfg w [] = some closed →
      (Return.mk w.call ((resolve cfg w []).getD closed)).Fair := by
    intro hearly hres
    rw [hres]
    exact fair_of_err (not_send_of_early hw hearly) rfl
  obtain ⟨call, outcomes, pc, out⟩ := w
  cases pc with
  | closedCheck => exact hexit rfl rfl
  | acquire l => exact hexit rfl rfl
  | connFirst => exact hexit rfl rfl
  | unlock l g => exact hkeep rfl rfl
  | release l => exact hkeep rfl rfl
  | snapshot => simp [Session.writeStep] at h
  | encode l => simp [Session.writeStep] at h
  | encoding l => simp [Session.writeStep] at h
  | lock l c =>
      simp only [Session.writeStep] at h
      split at h
      · cases c <;> simp at h
      · cases h
  | conn l g =>
      simp only [Session.writeStep] at h
      split at h <;> simp at h
  | send l c g => simp [Session.writeStep] at h

/-- A call that goes on has its result as soon as it is settled. -/
theorem fits_next {cfg : Cfg} {s : Session.Shared} {k : WriteKind} {w : Writer} (hw : Fits w)
    {x : Session.Shared} {pc : WritePc} (h : (x, [.write k pc]) ∈ Session.writeStep s k w.pc) :
    Fits { w with pc := pc, out := resolve cfg w [.write k pc] } := by
  have hsend : ∀ pkg, w.call = .send pkg → WritePc.early pc = false := by
    intro pkg hpkg
    have hearly := hw.send pkg hpkg
    obtain ⟨call, outcomes, pc₀, out⟩ := w
    cases pc₀ with
    | lock l c => cases c <;> grind [Session.writeStep, WritePc.early]
    | unlock l g => cases l <;> grind [Session.writeStep, WritePc.early]
    | conn l g => grind [Session.writeStep, WritePc.early]
    | send l c g => grind [Session.writeStep, WritePc.early]
    | release l => simp [Session.writeStep] at h
    | _ => cases hearly
  refine ⟨hsend, fun hsettled => ?_⟩
  obtain ⟨call, outcomes, pc₀, out⟩ := w
  cases pc₀ with
  | encoding l =>
      have hpc : pc = .release l := by
        simp only [Session.writeStep, List.mem_cons, List.not_mem_nil, or_false, Prod.mk.injEq,
          List.cons.injEq, Session.Thread.write.injEq, and_true, true_and] at h
        rcases h with ⟨-, rfl⟩ | ⟨-, rfl⟩
        · cases hsettled
        · rfl
      subst hpc
      exact ⟨_, rfl, fair_encodeFailed fun pkg hpkg => not_send_of_early hw rfl pkg hpkg⟩
  | conn l g =>
      simp only [Session.writeStep] at h
      split at h
      · simp only [List.mem_singleton, Prod.mk.injEq, List.cons.injEq, Session.Thread.write.injEq,
          and_true, true_and] at h
        obtain ⟨-, rfl⟩ := h
        exact ⟨_, rfl, fair_notFound call⟩
      · simp only [List.mem_singleton, Prod.mk.injEq, List.cons.injEq, Session.Thread.write.injEq,
          and_true, true_and] at h
        obtain ⟨-, rfl⟩ := h
        cases hsettled
  | send l c g => exact ⟨_, rfl, fair_sent cfg ⟨call, outcomes, .send l c g, out⟩⟩
  | unlock l g => exact hw.out rfl
  | release l => simp [Session.writeStep] at h
  | lock l c => cases c <;> grind [Session.writeStep, WritePc.settled]
  | closedCheck => cases k <;> grind [Session.writeStep, WriteKind.opened, WritePc.settled]
  | _ => grind [Session.writeStep, WritePc.settled]

/-- **Step lemma.**  A step adds only fair results, and every call still fits. -/
theorem fits_step {cfg : Cfg} {s s' : Shared} {a : Thread} {bs : List Thread}
    (ha : ∀ w, a = .call w → Fits w) (h : (s', bs) ∈ step cfg s a) :
    (∀ r ∈ s'.returns, r ∈ s.returns ∨ r.Fair) ∧ ∀ w, .call w ∈ bs → Fits w := by
  cases a with
  | sess th =>
      rw [step] at h
      obtain ⟨x, ys, -, rfl, rfl⟩ := mem_liftOutcomes h
      refine ⟨fun r hr => Or.inl hr, fun w hw => ?_⟩
      obtain ⟨y, -, hy⟩ := List.mem_map.mp hw
      cases hy
  | call w =>
      have hw := ha w rfl
      obtain ⟨x, ys, hstep, hfollows, heq⟩ := mem_callStep h
      rcases follows_cases hfollows with rfl | ⟨pc, rfl⟩
      · cases heq
        refine ⟨fun r hr => ?_, fun w' hw' => by cases hw'⟩
        rcases List.mem_append.mp hr with hr | hr
        · exact Or.inl hr
        · rw [List.mem_singleton.mp hr]
          exact Or.inr (fair_return hw hstep)
      · cases heq
        refine ⟨fun r hr => Or.inl hr, fun w' hw' => ?_⟩
        cases List.mem_singleton.mp hw'
        exact fits_next hw hstep

/-- **Run lemma.**  Every result is fair. -/
theorem fair_reaches {cfg : Cfg} {scfg : Session.Config} {c : Conf Shared Thread}
    (h : (prog cfg).Reaches (initial scfg) c) : ∀ r ∈ c.shared.returns, r.Fair := by
  have hall : (∀ r ∈ c.shared.returns, r.Fair) ∧ ∀ w, .call w ∈ c.pool → Fits w := by
    refine h.induct (fun c => (∀ r ∈ c.shared.returns, r.Fair) ∧ ∀ w, .call w ∈ c.pool → Fits w)
      ⟨(fun r hr => by cases hr), (fun w hw => by cases hw)⟩ ?_
    intro c c' m hc hm
    rcases exec_cases hm with ⟨a, hentry, rfl⟩ | ⟨l, a, r, s', bs, hpool, hstep, rfl⟩
    · refine ⟨hc.1, fun w hw => ?_⟩
      rcases List.mem_append.mp hw with hw | hw
      · exact hc.2 w hw
      · rw [← List.mem_singleton.mp hw] at hentry
        simp only [prog, entry, Bool.and_eq_true, beq_iff_eq] at hentry
        refine ⟨fun pkg hpkg => ?_, fun hsettled => ?_⟩
        · rw [hentry.1, hpkg]
          rfl
        · rw [hentry.1] at hsettled
          cases hcall : w.call <;> rw [hcall] at hsettled <;> cases hsettled
    · have ha : ∀ w, a = .call w → Fits w := fun w hw => hc.2 w (by rw [hpool, ← hw]; simp)
      obtain ⟨hret, hnew⟩ := fits_step ha hstep
      refine ⟨fun r hr => (hret r hr).elim (hc.1 r) id, fun w hw => ?_⟩
      rcases List.mem_append.mp hw with hw | hw
      · rcases List.mem_append.mp hw with hw | hw
        · exact hc.2 w (by rw [hpool]; simp [hw])
        · exact hnew w hw
      · exact hc.2 w (by rw [hpool]; simp [hw])
  exact hall.1

/-- **No write reports success for data that was dropped**, except a `Send` that finds no
connection.  In every state of the session, a call with a payload that has returned with
a nil error has had all of it accepted by the connection, if and only if it is not a
`Send` that found `s.Connection` nil.  But for the results the session is one of
`Session.prog`. -/
theorem write_success_is_delivery_iff (cfg : Cfg) (scfg : Session.Config)
    (c : Conf Shared Thread) (h : (prog cfg).Reaches (initial scfg) c) (r : Return)
    (hr : r ∈ c.shared.returns) (hpayload : r.call.payload ≠ []) :
    Session.prog.Leads (Session.initial scfg) ((simulation cfg).conf c) ∧
    ((r.out.result.err = none → r.out.accepted = r.call.payload) ↔
      ∀ pkg, r.call = .send pkg → r.out.found = true) := by
  refine ⟨(simulation cfg).reaches h, ?_⟩
  have hfair := fair_reaches h r hr
  obtain ⟨call, out⟩ := r
  cases call with
  | send pkg =>
      simp only [Return.Fair] at hfair
      split at hfair
      · next hfound => exact ⟨fun _ _ _ => hfound, fun _ => hfair⟩
      · next hfound =>
          refine ⟨fun hhonest => ?_, fun hall => absurd (hall pkg rfl) hfound⟩
          rw [hhonest hfair.1] at hfair
          exact absurd hfair.2 hpayload
  | _ => exact ⟨(fun _ pkg hpkg => by cases hpkg), fun _ => hfair⟩

/-- A raw TCP connection without deadlines or limits. -/
def tcpCfg : Cfg := ⟨.tcp, 0, 0⟩

def sendCall : Writer := ⟨.send (.bytes [1, 2]), [], .lock none none, none⟩

/-- A `Send` on an open session delivers its two bytes. -/
theorem write_success_is_delivery_open :
    ∃ c r, (prog tcpCfg).Reaches (initial ⟨⟨false, none⟩, none, true, true⟩) c ∧
      r ∈ c.shared.returns ∧ r.call = sendCall.call ∧ r.out.result = ⟨2, none⟩ ∧
      r.out.accepted = [1, 2] := by
  have hrun : ∃ c r, (prog tcpCfg).run (initial ⟨⟨false, none⟩, none, true, true⟩)
      [.start (.call sendCall), .fire 0 0, .fire 0 0, .fire 0 0, .fire 0 0] = some c ∧
      c.shared.returns = [r] ∧ r.call = sendCall.call ∧ r.out.found = true ∧
      r.out.result = ⟨2, none⟩ :=
    ⟨_, _, rfl, rfl, rfl, rfl, rfl⟩
  obtain ⟨c, r, hc, hret, hcall, hfound, hres⟩ := hrun
  have hr : r ∈ c.shared.returns := by simp [hret]
  have hiff := write_success_is_delivery_iff tcpCfg _ c ⟨_, hc⟩ r hr
    (by rw [hcall]; exact List.cons_ne_nil 1 [2])
  refine ⟨c, r, ⟨_, hc⟩, hr, hcall, hres, ?_⟩
  rw [hiff.2.mpr (fun _ _ => hfound) (by rw [hres]), hcall]
  rfl

/-- After `gc` has taken the connection, a `Send` of two bytes returns `(0, nil)`. -/
theorem send_drops_silently :
    ∃ c r, (prog tcpCfg).Reaches (initial ⟨⟨false, none⟩, none, true, true⟩) c ∧
      r ∈ c.shared.returns ∧ r.call = sendCall.call ∧ r.out.result = ⟨0, none⟩ ∧
      r.out.accepted = [] := by
  have hrun : ∃ c r, (prog tcpCfg).run (initial ⟨⟨false, none⟩, none, true, true⟩)
      (List.flatten [[.start (.sess (.reset .resetAsync))], List.replicate 18 (.fire 0 0),
        [.start (.call sendCall), .fire 3 0, .fire 3 0, .fire 3 0]]) = some c ∧
      c.shared.returns = [r] ∧ r.call = sendCall.call ∧ r.out.result = ⟨0, none⟩ ∧
      r.out.accepted = [] :=
    ⟨_, _, rfl, rfl, rfl, rfl, rfl⟩
  obtain ⟨c, r, hc, hret, hcall, hres, hacc⟩ := hrun
  exact ⟨c, r, ⟨_, hc⟩, by simp [hret], hcall, hres, hacc⟩

end Getty.Transport.WriteResult
