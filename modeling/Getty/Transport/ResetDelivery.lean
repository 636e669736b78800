import Getty.Transport.SessionFence
import Getty.Transport.SessionSteps

/-!
# Every reset request gets one result

`ResetAsync` gives every caller a channel of its own and adds it to the pending
run; the worker of the run delivers to all of them, under `resetLock`.  In
`Session.prog` the delivery is one step.  Here it is the loop of the source: one
send into a buffer of capacity one and one close for each channel, then
`resetRun = nil`.  A send blocks while the buffer is full, and neither a send nor
a close is possible on a closed channel, so that a worker that gets stuck would be
seen.

Runs are numbered; while run `r` is pending, `r` runs have finished, so that the
number of finished runs at a request is the number of the run that answers it.

## Main results

* `simulation` — a session with channels only reaches what `Session.prog` reaches.
* `reset_request_answered` — every request gets the result of its own run, once.
-/

namespace Getty.Transport.ResetDelivery

open Getty.Verified.ThreadPool
open Getty.Transport.Session (Config holds_reaches)

/-! ## The model -/

/-- A result channel: its buffer, and all values ever sent (true stands for nil). -/
structure Chan where
  buf : List Bool
  closed : Bool
  sent : List Bool
  deriving Repr, DecidableEq

/-- `make(chan error, 1)`. -/
def Chan.new : Chan := ⟨[], false, []⟩

/-- A send, when it does not block. -/
def Chan.send (ch : Chan) (v : Bool) : Option Chan :=
  if ch.closed ∨ 1 ≤ ch.buf.length then none
  else some { ch with buf := ch.buf ++ [v], sent := ch.sent ++ [v] }

/-- `asked id` is the run that answers request `id`, and `outcome` the generation a
run has cleared, or none after a panic. -/
structure Shared where
  sess : Session.Shared
  resetLock : Bool
  chan : Nat → Chan
  asked : Nat → Nat
  finished : Nat
  outcome : Nat → Option (Option Nat)

def Shared.init (cfg : Config) : Shared where
  sess := Session.Shared.init cfg
  resetLock := false
  chan := fun _ => Chan.new
  asked := fun _ => 0
  finished := 0
  outcome := fun _ => none

/-- The requests of the pending run. -/
def Shared.pending (s : Shared) : List Nat := s.sess.resetRun.getD []

/-- The loop over `run.results`. -/
inductive DeliverPc where
  | send (todo : List Nat)
  | close (id : Nat) (todo : List Nat)
  deriving Repr, DecidableEq

/-- The threads of the session, and a worker in its delivery loop. -/
inductive Thread where
  | sess (th : Session.Thread)
  | deliver (cleared : Option Nat) (pc : DeliverPc)
  deriving Repr, DecidableEq

abbrev Outcomes := List (Shared × List Thread)

/-- A step of the session that leaves the channels alone. -/
def lift (s : Shared) (th : Session.Thread) : Outcomes :=
  liftOutcomes (fun x _ => { s with sess := x }) .sess (Session.step s.sess th)

/-- `ResetAsync` makes a channel for its caller. -/
def Shared.makeChan (s : Shared) (id : Nat) : Shared :=
  { s with
    chan := Function.update s.chan id Chan.new
    asked := Function.update s.asked id s.finished }

def Shared.setChan (s : Shared) (id : Nat) (ch : Chan) : Shared :=
  { s with chan := Function.update s.chan id ch }

/-- The worker takes `resetLock` to deliver. -/
def Shared.startDelivery (s : Shared) (cleared : Option Nat) : Shared :=
  { s with
    resetLock := true
    outcome := Function.update s.outcome s.finished (some cleared) }

/-- `s.resetRun = nil`, and the unlock. -/
def Shared.endDelivery (s : Shared) (cleared : Option Nat) : Shared :=
  { s with
    sess := s.sess.deliver cleared.isSome
    resetLock := false
    finished := s.finished + 1 }

/-- Somebody receives from a result channel. -/
def receiveStep (s : Shared) (id : Nat) : Outcomes :=
  match (s.chan id).buf with
  | _ :: rest => [(s.setChan id { s.chan id with buf := rest }, [])]
  | [] => if (s.chan id).closed then [(s, [])] else []

/-- The delivery loop. -/
def deliverStep (s : Shared) (cleared : Option Nat) : DeliverPc → Outcomes
  | .send [] => [(s.endDelivery cleared, [])]
  | .send (id :: todo) =>
      match (s.chan id).send cleared.isSome with
      | some ch => [(s.setChan id ch, [.deliver cleared (.close id todo)])]
      | none => []
  | .close id todo =>
      if (s.chan id).closed then []
      else [(s.setChan id { s.chan id with closed := true }, [.deliver cleared (.send todo)])]

/-- One step of a thread.  `ResetAsync`, `run` and the delivery exclude each other
by `resetLock`. -/
def step (s : Shared) : Thread → Outcomes
  | .sess (.request wait) =>
      if s.resetLock then []
      else (lift s (.request wait)).map (fun out => (out.1.makeChan s.sess.nextRequest, out.2))
  | .sess (.run .register) => if s.resetLock then [] else lift s (.run .register)
  | .sess (.worker (.deliver cleared)) =>
      if s.resetLock then []
      else [(s.startDelivery cleared, [.deliver cleared (.send s.pending)])]
  | .sess (.await id) => receiveStep s id
  | .sess th => lift s th
  | .deliver cleared pc => deliverStep s cleared pc

/-- What may start at any time; `await` is the caller of a `ResetAsync` that
receives from its channel. -/
def entry (s : Shared) : Thread → Bool
  | .sess (.await id) => id < s.sess.nextRequest
  | .sess th => Session.entry s.sess th
  | .deliver _ _ => false

def prog : Prog Shared Thread where
  entry := entry
  step := step

def initial (cfg : Config) : Conf Shared Thread := ⟨Shared.init cfg, []⟩

/-! ## The session below -/

/-- The thread of `Session.prog`; there nobody waits for a result, and a request is
one that does not wait. -/
def Thread.below : Thread → List Session.Thread
  | .sess (.reset _) => []
  | .sess (.request _) => [.request false]
  | .sess (.await _) => []
  | .sess th => [th]
  | .deliver cleared _ => [.worker (.deliver cleared)]

theorem below_of_not_asks {th : Session.Thread} (h : th.asks = false) :
    (Thread.sess th).below = [th] := by
  cases th with
  | reset k => cases h
  | request wait => cases h
  | await id => cases h
  | _ => rfl

private theorem below_map {bs : List Session.Thread} (h : ∀ b ∈ bs, b.asks = false) :
    (bs.map Thread.sess).flatMap Thread.below = bs :=
  flatMap_map_below fun b hb => below_of_not_asks (h b hb)

theorem mem_lift {s s' : Shared} {th : Session.Thread} {bs : List Thread}
    (h : (s', bs) ∈ lift s th) :
    ∃ x xs, (x, xs) ∈ Session.step s.sess th ∧ s' = { s with sess := x } ∧ bs = xs.map .sess :=
  mem_liftOutcomes h

/-- A thread of the session that neither asks nor delivers takes a step of
`Session.prog`. -/
theorem mem_step_sess {s s' : Shared} {th : Session.Thread} {bs : List Thread}
    (hask : th.asks = false) (hdel : ∀ cleared, th ≠ .worker (.deliver cleared))
    (h : (s', bs) ∈ step s (.sess th)) :
    ∃ x xs, (x, xs) ∈ Session.step s.sess th ∧ s' = { s with sess := x } ∧ bs = xs.map .sess := by
  cases th with
  | reset k => cases hask
  | request wait => cases hask
  | await id => cases hask
  | run pc =>
      cases pc with
      | register =>
          simp only [step] at h
          split at h
          · cases h
          · exact mem_lift h
      | _ => exact mem_lift h
  | worker pc =>
      cases pc with
      | deliver cleared => exact absurd rfl (hdel cleared)
      | _ => exact mem_lift h
  | _ => exact mem_lift h

private theorem receive_sess {s s' : Shared} {id : Nat} {bs : List Thread}
    (h : (s', bs) ∈ receiveStep s id) : s'.sess = s.sess ∧ bs = [] := by
  unfold receiveStep at h
  split at h
  · cases List.mem_singleton.mp h
    exact ⟨rfl, rfl⟩
  · split at h
    · cases List.mem_singleton.mp h
      exact ⟨rfl, rfl⟩
    · cases h

/-- A request is made: the session adds it to the pending run, and starts a worker
when there is none. -/
theorem mem_step_request {s s' : Shared} {wait : Bool} {bs : List Thread}
    (h : (s', bs) ∈ step s (.sess (.request wait))) :
    s.resetLock = false ∧
      s' = ({ s with sess := s.sess.request } : Shared).makeChan s.sess.nextRequest ∧
      ∃ xs, (s.sess.request, xs) ∈ Session.step s.sess (.request false) ∧
        bs = xs.map .sess ++ (if wait then [.sess (.await s.sess.nextRequest)] else []) ∧
        ∀ x ∈ xs, x.asks = false := by
  simp only [step] at h
  split at h
  · cases h
  · next hlock =>
      obtain ⟨⟨t, ts⟩, hmem, heq⟩ := List.mem_map.mp h
      obtain ⟨x, xs, hstep, rfl, rfl⟩ := mem_lift hmem
      obtain ⟨rfl, rfl⟩ := Prod.ext_iff.mp heq
      refine ⟨by simpa using hlock, ?_⟩
      cases hrun : s.sess.resetRun with
      | some ids =>
          simp only [Session.step, Session.requestStep, hrun, List.mem_singleton] at hstep
          obtain ⟨rfl, rfl⟩ := Prod.ext_iff.mp hstep
          refine ⟨rfl, [], ?_, ?_, by simp⟩
          · simp [Session.step, Session.requestStep, hrun]
          · cases wait <;> rfl
      | none =>
          simp only [Session.step, Session.requestStep, hrun, List.mem_singleton] at hstep
          obtain ⟨rfl, rfl⟩ := Prod.ext_iff.mp hstep
          refine ⟨rfl, [.stop .readOnce .reset], ?_, ?_, ?_⟩
          · simp [Session.step, Session.requestStep, hrun]
          · cases wait <;> rfl
          · simp [Session.Thread.asks]

/-- **The channels refine the session.** -/
def simulation : Simulation prog Session.prog where
  shared := Shared.sess
  thread := Thread.below
  entry := by
    intro s a pool h
    cases a with
    | deliver cleared pc => cases h
    | sess th =>
        cases hask : th.asks with
        | true =>
            -- a request that was not made yet, and a wait, are not seen below
            cases th with
            | request wait => cases h
            | reset k => simpa [Thread.below] using Prog.Leads.refl Session.prog _
            | await id => simpa [Thread.below] using Prog.Leads.refl Session.prog _
            | _ => cases hask
        | false =>
            rw [below_of_not_asks hask]
            refine .start pool ?_
            cases th with
            | await id => cases hask
            | _ => exact h
  step := by
    intro s a s' bs pool h
    cases a with
    | deliver cleared pc =>
        cases pc with
        | send todo =>
            cases todo with
            | nil =>
                cases List.mem_singleton.mp h
                exact .fire pool (List.mem_singleton.mpr rfl)
            | cons id todo =>
                simp only [prog, step, deliverStep] at h
                split at h
                · cases List.mem_singleton.mp h
                  exact .refl Session.prog _
                · cases h
        | close id todo =>
            simp only [prog, step, deliverStep] at h
            split at h
            · cases h
            · cases List.mem_singleton.mp h
              exact .refl Session.prog _
    | sess th =>
        cases hask : th.asks with
        | false =>
            by_cases hdel : ∃ cleared, th = .worker (.deliver cleared)
            · obtain ⟨cleared, rfl⟩ := hdel
              simp only [prog, step] at h
              split at h
              · cases h
              · cases List.mem_singleton.mp h
                exact .refl Session.prog _
            · obtain ⟨x, xs, hstep, rfl, rfl⟩ :=
                mem_step_sess hask (fun cleared hc => hdel ⟨cleared, hc⟩) h
              rw [below_of_not_asks hask, below_map (Session.step_asks hask hstep).1]
              exact .fire pool hstep
        | true =>
            cases th with
            | reset k =>
                obtain ⟨x, xs, hstep, rfl, rfl⟩ := mem_lift h
                have hspawn : Session.prog.Leads ⟨s.sess, pool⟩
                    ⟨s.sess, [.request false] ++ pool⟩ :=
                  .spawn pool (a := .reset .resetAsync) rfl (List.mem_singleton.mpr rfl)
                cases k with
                | tryReset =>
                    simp only [Session.step, Session.resetStep] at hstep
                    split at hstep
                    · obtain ⟨rfl, rfl⟩ := Prod.ext_iff.mp (List.mem_singleton.mp hstep)
                      exact .refl Session.prog _
                    · obtain ⟨rfl, rfl⟩ := Prod.ext_iff.mp (List.mem_singleton.mp hstep)
                      exact hspawn
                | reset =>
                    obtain ⟨rfl, rfl⟩ := Prod.ext_iff.mp (List.mem_singleton.mp hstep)
                    exact hspawn
                | resetAsync =>
                    obtain ⟨rfl, rfl⟩ := Prod.ext_iff.mp (List.mem_singleton.mp hstep)
                    exact hspawn
            | request wait =>
                obtain ⟨-, rfl, xs, hstep, rfl, hxs⟩ := mem_step_request h
                have hwaiter : ((if wait then [Thread.sess (.await s.sess.nextRequest)]
                    else []) : List Thread).flatMap Thread.below = [] := by
                  cases wait <;> rfl
                rw [List.flatMap_append, below_map hxs, hwaiter, List.append_nil]
                exact .fire pool hstep
            | await id =>
                obtain ⟨hsame, rfl⟩ := receive_sess h
                rw [hsame]
                exact .refl Session.prog _
            | _ => cases hask

/-! ## The outline -/

/-- A channel holds at most the one value that was ever sent on it, and was sent one
when it is closed. -/
structure Chan.Ok (ch : Chan) : Prop where
  sent : ch.sent.length ≤ 1
  buf : ch.buf.Sublist ch.sent
  closed : ch.closed = true → ch.sent.length = 1

/-- The channel was sent the result `v` and closed. -/
structure Chan.Done (ch : Chan) (v : Bool) : Prop where
  sent : ch.sent = [v]
  closed : ch.closed = true

structure Inv (s : Shared) : Prop where
  ok : ∀ id, (s.chan id).Ok
  value : ∀ id, ∀ v ∈ (s.chan id).sent,
    ∃ cleared, s.outcome (s.asked id) = some cleared ∧ v = Option.isSome cleared
  future : ∀ id, s.sess.nextRequest ≤ id → s.chan id = Chan.new
  nodup : s.pending.Nodup
  pending : ∀ id ∈ s.pending, id < s.sess.nextRequest ∧ s.asked id = s.finished
  waiting : s.resetLock = false → ∀ id ∈ s.pending, s.chan id = Chan.new
  answered : ∀ id < s.sess.nextRequest, id ∉ s.pending →
    s.asked id < s.finished ∧ ∃ v, (s.chan id).Done v

/-- The delivery loop: `todo` is what is left of the pending requests. -/
structure Delivering (s : Shared) (cleared : Option Nat) (todo : List Nat) : Prop where
  outcome : s.outcome s.finished = some cleared
  nodup : todo.Nodup
  todo : ∀ id ∈ todo, id ∈ s.pending ∧ s.chan id = Chan.new

def Local (s : Shared) : Thread → Prop
  | .deliver cleared (.send todo) =>
      Delivering s cleared todo ∧
        ∀ id ∈ s.pending, id ∈ todo ∨ (s.chan id).Done cleared.isSome
  | .deliver cleared (.close i todo) =>
      Delivering s cleared todo ∧ i ∈ s.pending ∧ (s.chan i).closed = false ∧
        (s.chan i).sent = [cleared.isSome] ∧
        ∀ id ∈ s.pending, id = i ∨ id ∈ todo ∨ (s.chan id).Done cleared.isSome
  | .sess _ => True

/-- `resetLock` belongs to the worker that delivers. -/
def outline : Outline Shared Thread Unit where
  shared := Inv
  loc := Local
  val _ s := s.resetLock.toNat
  wt
    | _, .deliver _ _ => 1
    | _, .sess _ => 0

theorem total_sess (bs : List Session.Thread) : total (outline.wt ()) (bs.map .sess) = 0 :=
  total_map_eq_zero _ _ fun _ _ => rfl

theorem local_sess (s : Shared) (bs : List Session.Thread) : ∀ b ∈ bs.map .sess, Local s b := by
  intro b hb
  obtain ⟨x, -, rfl⟩ := List.mem_map.mp hb
  trivial

/-- What a step of the thread has to deliver. -/
abbrev Keeps (s : Shared) (a : Thread) (s' : Shared) (bs : List Thread) : Prop :=
  outline.Keeps s a s' bs

section Own

variable {s s' : Shared} {bs : List Thread}

theorem Chan.new_ok : Chan.new.Ok := ⟨Nat.zero_le _, .slnil, fun h => by cases h⟩

/-- The session changes, and the requests do not. -/
private theorem inv_sess (hs : Inv s) {x : Session.Shared} (hrun : x.resetRun = s.sess.resetRun)
    (hnext : x.nextRequest = s.sess.nextRequest) : Inv { s with sess := x } := by
  have hpend : ({ s with sess := x } : Shared).pending = s.pending := by
    simp only [Shared.pending, hrun]
  refine ⟨hs.ok, hs.value, ?_, ?_, ?_, ?_, ?_⟩
  · simpa only [hnext] using hs.future
  · rw [hpend]
    exact hs.nodup
  · rw [hpend]
    simpa only [hnext] using hs.pending
  · rw [hpend]
    exact hs.waiting
  · rw [hpend]
    simpa only [hnext] using hs.answered

private theorem keeps_sess (hs : Inv s) {th : Session.Thread} (hask : th.asks = false)
    (hdel : ∀ cleared, th ≠ .worker (.deliver cleared)) (h : (s', bs) ∈ step s (.sess th)) :
    Keeps s (.sess th) s' bs := by
  obtain ⟨x, xs, hstep, rfl, rfl⟩ := mem_step_sess hask hdel h
  rcases (Session.step_asks hask hstep).2 with ⟨hrun, hnext⟩ | ⟨cleared, hth⟩
  · exact ⟨inv_sess hs hrun hnext, local_sess _ xs, fun i => by rw [total_sess]; rfl⟩
  · exact absurd hth (hdel cleared)

/-- A request joins the pending run with a channel of its own. -/
theorem keeps_request (hs : Inv s) {wait : Bool} (h : (s', bs) ∈ step s (.sess (.request wait))) :
    Keeps s (.sess (.request wait)) s' bs := by
  obtain ⟨hlock, rfl, xs, -, rfl, -⟩ := mem_step_request h
  have hlt : ∀ id ∈ s.pending, id ≠ s.sess.nextRequest := fun id hid =>
    Nat.ne_of_lt (hs.pending id hid).1
  have hpend : (({ s with sess := s.sess.request } : Shared).makeChan
      s.sess.nextRequest).pending = s.pending ++ [s.sess.nextRequest] := rfl
  refine ⟨⟨?_, ?_, ?_, ?_, ?_, ?_, ?_⟩, ?_, ?_⟩
  · intro id
    by_cases hid : id = s.sess.nextRequest
    · subst hid
      simpa [Shared.makeChan] using Chan.new_ok
    · simpa [Shared.makeChan, hid] using hs.ok id
  · intro id v hv
    by_cases hid : id = s.sess.nextRequest
    · subst hid
      simp [Shared.makeChan, Chan.new] at hv
    · simp only [Shared.makeChan, Function.update_of_ne hid] at hv ⊢
      exact hs.value id v hv
  · intro id hid
    have hge : s.sess.nextRequest + 1 ≤ id := hid
    have hne : id ≠ s.sess.nextRequest := by omega
    simpa [Shared.makeChan, hne] using hs.future id (by omega)
  · rw [hpend, List.nodup_append]
    refine ⟨hs.nodup, by simp, ?_⟩
    intro id hid j hj
    rw [List.mem_singleton.mp hj]
    exact hlt id hid
  · intro id hid
    rw [hpend] at hid
    have hnext : (({ s with sess := s.sess.request } : Shared).makeChan
        s.sess.nextRequest).sess.nextRequest = s.sess.nextRequest + 1 := rfl
    rw [hnext]
    rcases List.mem_append.mp hid with hid | hid
    · obtain ⟨hbound, hasked⟩ := hs.pending id hid
      refine ⟨by omega, ?_⟩
      simpa [Shared.makeChan, hlt id hid] using hasked
    · rw [List.mem_singleton.mp hid]
      exact ⟨Nat.lt_succ_self _, by simp [Shared.makeChan]⟩
  · intro _ id hid
    rw [hpend] at hid
    rcases List.mem_append.mp hid with hid | hid
    · simpa [Shared.makeChan, hlt id hid] using hs.waiting hlock id hid
    · rw [List.mem_singleton.mp hid]
      simp [Shared.makeChan]
  · intro id hbound hid
    rw [hpend, List.mem_append, List.mem_singleton, not_or] at hid
    have hlt' : id < s.sess.nextRequest + 1 := hbound
    have := hs.answered id (by omega) hid.1
    simpa [Shared.makeChan, hid.2] using this
  · intro b hb
    rcases List.mem_append.mp hb with hb | hb
    · exact local_sess _ xs b hb
    · cases wait with
      | false => cases hb
      | true =>
          rw [List.mem_singleton.mp hb]
          trivial
  · intro i
    rw [total_append, total_sess]
    cases wait <;> rfl

/-! ### Changes of one channel -/

theorem setChan_self (s : Shared) (id : Nat) (ch : Chan) : (s.setChan id ch).chan id = ch := by
  simp [Shared.setChan]

theorem setChan_of_ne (s : Shared) {id j : Nat} (ch : Chan) (h : j ≠ id) :
    (s.setChan id ch).chan j = s.chan j := by
  simp [Shared.setChan, h]

/-- What a thread may do to the channel of one request: a receiver changes a channel that is
no longer new, and the delivery loop the one of a pending request. -/
theorem inv_setChan (hs : Inv s) {id : Nat} {ch : Chan} (hok : ch.Ok)
    (hmine : s.chan id ≠ Chan.new ∨ (s.resetLock = true ∧ id ∈ s.pending))
    (hvalue : ∀ v ∈ ch.sent, ∃ cleared, s.outcome (s.asked id) = some cleared ∧
      v = Option.isSome cleared)
    (hdone : ∀ v, (s.chan id).Done v → ch.Done v) : Inv (s.setChan id ch) := by
  refine ⟨fun j => ?_, fun j v hv => ?_, fun j hj => ?_, hs.nodup, hs.pending,
    fun hfree j hj => ?_, fun j hj hpend => ?_⟩
  · by_cases hji : j = id
    · subst hji
      rw [setChan_self]
      exact hok
    · rw [setChan_of_ne s ch hji]
      exact hs.ok j
  · by_cases hji : j = id
    · subst hji
      rw [setChan_self] at hv
      exact hvalue v hv
    · rw [setChan_of_ne s ch hji] at hv
      exact hs.value j v hv
  · have hge : s.sess.nextRequest ≤ j := hj
    have hji : j ≠ id := by
      rintro rfl
      rcases hmine with hold | ⟨-, hmem⟩
      · exact hold (hs.future j hge)
      · have := (hs.pending j hmem).1
        omega
    rw [setChan_of_ne s ch hji]
    exact hs.future j hge
  · have hji : j ≠ id := by
      rintro rfl
      rcases hmine with hold | ⟨hlock, -⟩
      · exact hold (hs.waiting hfree j hj)
      · rw [show s.resetLock = false from hfree] at hlock
        cases hlock
    rw [setChan_of_ne s ch hji]
    exact hs.waiting hfree j hj
  · obtain ⟨hasked, v, hv⟩ := hs.answered j hj hpend
    refine ⟨hasked, v, ?_⟩
    by_cases hji : j = id
    · subst hji
      rw [setChan_self]
      exact hdone v hv
    · rw [setChan_of_ne s ch hji]
      exact hv

/-- A value is received. -/
private theorem keeps_receive (hs : Inv s) {id : Nat} (h : (s', bs) ∈ receiveStep s id) :
    Keeps s (.sess (.await id)) s' bs := by
  unfold receiveStep at h
  split at h
  · next v rest hbuf =>
      cases List.mem_singleton.mp h
      refine ⟨inv_setChan hs ⟨(hs.ok id).sent, ?_, (hs.ok id).closed⟩ (Or.inl fun hnew => ?_)
        (hs.value id) (fun v hv => ⟨hv.sent, hv.closed⟩), by simp, fun i => rfl⟩
      · have hsub := (hs.ok id).buf
        rw [hbuf] at hsub
        exact (List.sublist_cons_self v rest).trans hsub
      · rw [hnew] at hbuf
        cases hbuf
  · split at h
    · cases List.mem_singleton.mp h
      exact ⟨hs, by simp, fun i => rfl⟩
    · cases h

/-- The worker takes `resetLock`. -/
theorem keeps_startDelivery (hs : Inv s) {cleared : Option Nat} (hlock : s.resetLock = false) :
    Keeps s (.sess (.worker (.deliver cleared))) (s.startDelivery cleared)
      [.deliver cleared (.send s.pending)] := by
  have hnew : ∀ id ∈ s.pending, s.chan id = Chan.new := hs.waiting hlock
  refine ⟨⟨hs.ok, fun id v hv => ?_, hs.future, hs.nodup, hs.pending, (fun h => by cases h),
    hs.answered⟩, List.forall_mem_singleton.mpr ⟨⟨?_, hs.nodup, ?_⟩, ?_⟩, ?_⟩
  · -- the run that ends now has not answered anybody yet
    have hne : s.asked id ≠ s.finished := by
      intro hasked
      by_cases hid : id < s.sess.nextRequest
      · by_cases hpend : id ∈ s.pending
        · have hv' : v ∈ (s.chan id).sent := hv
          rw [hnew id hpend] at hv'
          cases hv'
        · have := (hs.answered id hid hpend).1
          omega
      · have hv' : v ∈ (s.chan id).sent := hv
        rw [hs.future id (by omega)] at hv'
        cases hv'
    have := hs.value id v hv
    simpa [Shared.startDelivery, hne] using this
  · simp [Shared.startDelivery]
  · exact fun id hid => ⟨hid, hnew id hid⟩
  · exact fun id hid => Or.inl hid
  · intro i
    simp [outline, Shared.startDelivery, hlock]

/-- The loop is over: every pending request has its result. -/
private theorem keeps_endDelivery (hs : Inv s) {cleared : Option Nat} (hlock : s.resetLock = true)
    (hrest : ∀ id ∈ s.pending, (s.chan id).Done cleared.isSome) :
    Keeps s (.deliver cleared (.send [])) (s.endDelivery cleared) [] := by
  have hpend : (s.endDelivery cleared).pending = [] := rfl
  refine ⟨⟨hs.ok, hs.value, hs.future, ?_, ?_, ?_, fun id hid _ => ?_⟩, by simp, ?_⟩
  · rw [hpend]
    exact List.nodup_nil
  · rw [hpend]
    simp
  · rw [hpend]
    simp
  · have hid' : id < s.sess.nextRequest := hid
    have hfin : (s.endDelivery cleared).finished = s.finished + 1 := rfl
    rw [hfin]
    by_cases hmem : id ∈ s.pending
    · refine ⟨?_, cleared.isSome, hrest id hmem⟩
      rw [show (s.endDelivery cleared).asked id = s.finished from (hs.pending id hmem).2]
      exact Nat.lt_succ_self _
    · obtain ⟨hasked, hdone⟩ := hs.answered id hid' hmem
      exact ⟨Nat.lt_succ_of_lt hasked, hdone⟩
  · intro i
    simp [outline, Shared.endDelivery, hlock]

/-- The loop sends on a channel nobody has sent on. -/
private theorem keeps_sendResult (hs : Inv s) {cleared : Option Nat} {id : Nat} {todo : List Nat}
    (hlock : s.resetLock = true) (hl : Local s (.deliver cleared (.send (id :: todo)))) :
    Keeps s (.deliver cleared (.send (id :: todo)))
      (s.setChan id ⟨[cleared.isSome], false, [cleared.isSome]⟩)
      [.deliver cleared (.close id todo)] := by
  obtain ⟨⟨hout, hnodup, htodo⟩, hrest⟩ := hl
  obtain ⟨hmem, hnew⟩ := htodo id (List.mem_cons_self ..)
  obtain ⟨hnot, hnodup'⟩ := List.nodup_cons.mp hnodup
  have hasked := (hs.pending id hmem).2
  refine ⟨inv_setChan hs ⟨by simp, by simp, (fun h => by cases h)⟩ (Or.inr ⟨hlock, hmem⟩) ?_ ?_,
    List.forall_mem_singleton.mpr ⟨⟨hout, hnodup', ?_⟩, hmem, ?_, ?_, ?_⟩, fun i => rfl⟩
  · intro v hv
    rw [hasked]
    exact ⟨cleared, hout, List.mem_singleton.mp hv⟩
  · intro v hv
    rw [hnew] at hv
    cases hv.closed
  · intro j hj
    have hji : j ≠ id := fun h => hnot (h ▸ hj)
    rw [setChan_of_ne s _ hji]
    exact htodo j (List.mem_cons_of_mem _ hj)
  · rw [setChan_self]
  · rw [setChan_self]
  · intro j hj
    by_cases hji : j = id
    · exact Or.inl hji
    · rw [setChan_of_ne s _ hji]
      rcases hrest j hj with hj' | hdone
      · exact Or.inr (Or.inl (List.mem_of_ne_of_mem hji hj'))
      · exact Or.inr (Or.inr hdone)

/-- The loop closes a channel nobody has closed. -/
private theorem keeps_closeResult (hs : Inv s) {cleared : Option Nat} {id : Nat} {todo : List Nat}
    (hlock : s.resetLock = true) (hl : Local s (.deliver cleared (.close id todo))) :
    Keeps s (.deliver cleared (.close id todo))
      (s.setChan id { s.chan id with closed := true }) [.deliver cleared (.send todo)] := by
  obtain ⟨⟨hout, hnodup, htodo⟩, hmem, hopen, hsent, hrest⟩ := hl
  have hasked := (hs.pending id hmem).2
  have hnot : ∀ j ∈ todo, j ≠ id := by
    rintro j hj rfl
    rw [(htodo j hj).2] at hsent
    cases hsent
  refine ⟨inv_setChan hs ⟨(hs.ok id).sent, (hs.ok id).buf, fun _ => ?_⟩ (Or.inr ⟨hlock, hmem⟩) ?_
    (fun v hv => ⟨hv.sent, rfl⟩), List.forall_mem_singleton.mpr ⟨⟨hout, hnodup, ?_⟩, ?_⟩,
    fun i => rfl⟩
  · rw [hsent]
    rfl
  · intro v hv
    rw [hsent] at hv
    rw [hasked]
    exact ⟨cleared, hout, List.mem_singleton.mp hv⟩
  · intro j hj
    rw [setChan_of_ne s _ (hnot j hj)]
    exact htodo j hj
  · intro j hj
    by_cases hji : j = id
    · subst hji
      rw [setChan_self]
      exact Or.inr ⟨hsent, rfl⟩
    · rw [setChan_of_ne s _ hji]
      rcases hrest j hj with hj' | hj' | hdone
      · exact absurd hj' hji
      · exact Or.inl hj'
      · exact Or.inr hdone

/-- **The delivery loop** keeps the invariant. -/
theorem keeps_deliver (hs : Inv s) {cleared : Option Nat} {pc : DeliverPc}
    (hl : Local s (.deliver cleared pc)) (hlock : s.resetLock = true)
    (h : (s', bs) ∈ deliverStep s cleared pc) : Keeps s (.deliver cleared pc) s' bs := by
  cases pc with
  | send todo =>
      cases todo with
      | nil =>
          cases List.mem_singleton.mp h
          refine keeps_endDelivery hs hlock (fun id hid => ?_)
          exact (hl.2 id hid).resolve_left List.not_mem_nil
      | cons id todo =>
          have hsend : (s.chan id).send cleared.isSome =
              some ⟨[cleared.isSome], false, [cleared.isSome]⟩ := by
            rw [(hl.1.todo id (List.mem_cons_self ..)).2]
            rfl
          simp only [deliverStep, hsend] at h
          cases List.mem_singleton.mp h
          exact keeps_sendResult hs hlock hl
  | close id todo =>
      simp only [deliverStep, hl.2.2.1] at h
      cases List.mem_singleton.mp h
      exact keeps_closeResult hs hlock hl

/-- **Step lemma**, for the thread that takes the step. -/
theorem keeps_step (hs : Inv s) {a : Thread} (hl : Local s a)
    (hb : ∀ i, (outline.wt i a : Int) ≤ outline.val i s) (h : (s', bs) ∈ step s a) :
    Keeps s a s' bs := by
  cases a with
  | deliver cleared pc =>
      have hlock : s.resetLock = true := by
        have hle := hb ()
        cases hr : s.resetLock with
        | true => rfl
        | false => simp [outline, hr] at hle
      exact keeps_deliver hs hl hlock h
  | sess th =>
      cases hask : th.asks with
      | false =>
          by_cases hdel : ∃ cleared, th = .worker (.deliver cleared)
          · obtain ⟨cleared, rfl⟩ := hdel
            obtain ⟨hlock, h⟩ := mem_blocked h
            cases h
            exact keeps_startDelivery hs (by simpa using hlock)
          · exact keeps_sess hs hask (fun cleared hc => hdel ⟨cleared, hc⟩) h
      | true =>
          cases th with
          | request wait => exact keeps_request hs h
          | await id => exact keeps_receive hs h
          | reset k =>
              obtain ⟨x, xs, hstep, rfl, rfl⟩ := mem_lift h
              have hx : x = s.sess := by
                cases k <;> grind [Session.step, Session.resetStep]
              subst hx
              exact ⟨hs, local_sess _ xs, fun i => by rw [total_sess]; rfl⟩
          | _ => cases hask

end Own

/-! ## Interference -/

/-- What the delivery loop looks at. -/
structure Same (s s' : Shared) : Prop where
  pending : s'.pending = s.pending
  finished : s'.finished = s.finished
  outcome : s'.outcome = s.outcome
  fresh : ∀ id, s.chan id = Chan.new → s'.chan id = Chan.new
  sent : ∀ id, (s'.chan id).sent = (s.chan id).sent
  closed : ∀ id, (s'.chan id).closed = (s.chan id).closed

theorem Same.delivering {s s' : Shared} (h : Same s s') {cleared : Option Nat} {todo : List Nat}
    (hd : Delivering s cleared todo) : Delivering s' cleared todo := by
  refine ⟨by rw [h.outcome, h.finished]; exact hd.outcome, hd.nodup, fun id hid => ?_⟩
  rw [h.pending]
  exact ⟨(hd.todo id hid).1, h.fresh id (hd.todo id hid).2⟩

theorem Same.done {s s' : Shared} (h : Same s s') {id : Nat} {v : Bool}
    (hd : (s.chan id).Done v) : (s'.chan id).Done v :=
  ⟨(h.sent id).trans hd.sent, (h.closed id).trans hd.closed⟩

theorem Same.loc {s s' : Shared} (h : Same s s') {b : Thread} (hb : Local s b) : Local s' b := by
  cases b with
  | sess th => trivial
  | deliver cleared pc =>
      cases pc with
      | send todo =>
          refine ⟨h.delivering hb.1, ?_⟩
          rw [h.pending]
          exact fun j hj => (hb.2 j hj).imp_right h.done
      | close i todo =>
          obtain ⟨hd, hmem, hopen, hsent, hrest⟩ := hb
          refine ⟨h.delivering hd, by rw [h.pending]; exact hmem, (h.closed i).trans hopen,
            (h.sent i).trans hsent, ?_⟩
          rw [h.pending]
          exact fun j hj => (hrest j hj).imp_right (Or.imp_right h.done)

/-- A receive is not seen by the delivery loop. -/
private theorem same_receive {s s' : Shared} {id : Nat} {bs : List Thread}
    (h : (s', bs) ∈ receiveStep s id) : Same s s' := by
  unfold receiveStep at h
  split at h
  · next v rest hbuf =>
      cases List.mem_singleton.mp h
      refine ⟨rfl, rfl, rfl, fun j hj => ?_, fun j => ?_, fun j => ?_⟩
      · have hne : j ≠ id := by
          rintro rfl
          rw [hj] at hbuf
          cases hbuf
        rw [setChan_of_ne s _ hne]
        exact hj
      · by_cases hji : j = id
        · subst hji
          rw [setChan_self]
        · rw [setChan_of_ne s _ hji]
      · by_cases hji : j = id
        · subst hji
          rw [setChan_self]
        · rw [setChan_of_ne s _ hji]
  · split at h
    · cases List.mem_singleton.mp h
      exact ⟨rfl, rfl, rfl, fun _ hj => hj, fun _ => rfl, fun _ => rfl⟩
    · cases h

private theorem same_sess {s : Shared} {x : Session.Shared} (hrun : x.resetRun = s.sess.resetRun) :
    Same s { s with sess := x } :=
  ⟨by simp only [Shared.pending, hrun], rfl, rfl, fun _ hj => hj, fun _ => rfl, fun _ => rfl⟩

/-- Only the holder of `resetLock` changes what the delivery loop looks at. -/
theorem local_interference {s s' : Shared} {a b : Thread} {bs : List Thread} (hl : Local s b)
    (hpair : (outline.wt () a : Int) + outline.wt () b ≤ outline.val () s)
    (h : (s', bs) ∈ step s a) : Local s' b := by
  cases b with
  | sess th => trivial
  | deliver cleared pc =>
      have hlock : s.resetLock = true ∧ outline.wt () a = 0 := by
        cases hr : s.resetLock with
        | false => simp [outline, hr] at hpair; omega
        | true =>
            refine ⟨rfl, ?_⟩
            have hone : (outline.wt () (Thread.deliver cleared pc) : Int) = 1 := rfl
            have hval : outline.val () s = 1 := by simp [outline, hr]
            omega
      obtain ⟨hheld, hwt⟩ := hlock
      cases a with
      | deliver cleared' pc' => cases hwt
      | sess th =>
          cases hask : th.asks with
          | false =>
              by_cases hdel : ∃ cleared, th = .worker (.deliver cleared)
              · obtain ⟨cleared, rfl⟩ := hdel
                simp [step, hheld] at h
              · have hdel' : ∀ cleared, th ≠ .worker (.deliver cleared) :=
                  fun cleared hc => hdel ⟨cleared, hc⟩
                obtain ⟨x, xs, hstep, rfl, rfl⟩ := mem_step_sess hask hdel' h
                rcases (Session.step_asks hask hstep).2 with ⟨hrun, -⟩ | hcl
                · exact (same_sess hrun).loc hl
                · exact absurd hcl hdel
          | true =>
              cases th with
              | request wait =>
                  obtain ⟨hfree, -⟩ := mem_step_request h
                  rw [hheld] at hfree
                  cases hfree
              | await id => exact (same_receive h).loc hl
              | reset k =>
                  obtain ⟨x, xs, hstep, rfl, rfl⟩ := mem_lift h
                  have hx : x = s.sess := by
                    cases k <;> grind [Session.step, Session.resetStep]
                  subst hx
                  exact hl
              | _ => cases hask

private theorem outline_valid : outline.Valid prog where
  entry := by
    intro s a _ h
    cases a with
    | sess th => exact ⟨trivial, fun _ => rfl⟩
    | deliver cleared pc => cases h
  own := fun s a s' bs hs hl hb h => keeps_step hs hl hb h
  other := fun s a b s' bs _ _ hlb hpair h => local_interference hlb (hpair ()) h

private theorem outline_initial (cfg : Config) : outline.Holds (initial cfg) := by
  refine ⟨⟨fun _ => Chan.new_ok, ?_, fun _ _ => rfl, ?_, ?_, ?_, ?_⟩, ?_, fun _ => rfl⟩
  · intro id v hv
    cases hv
  · exact List.nodup_nil
  · intro id hid
    cases hid
  · intro _ id hid
    cases hid
  · intro id hid
    exact absurd hid (Nat.not_lt_zero id)
  · intro a ha
    cases ha

/-! ## The results -/

/-- The delivery loop is never stuck. -/
private theorem deliver_ready {s : Shared} {cleared : Option Nat} {pc : DeliverPc}
    (hl : Local s (.deliver cleared pc)) : deliverStep s cleared pc ≠ [] := by
  cases pc with
  | send todo =>
      cases todo with
      | nil => simp [deliverStep]
      | cons id todo =>
          have hnew := (hl.1.todo id (List.mem_cons_self ..)).2
          simp [deliverStep, hnew, Chan.new, Chan.send]
  | close id todo =>
      obtain ⟨-, -, hopen, -, -⟩ := hl
      simp [deliverStep, hopen]

/-- The thread is the reset worker, also while it delivers. -/
def Thread.isWorker : Thread → Bool
  | .sess th => th.isWorker
  | .deliver _ _ => true

private theorem weight_below (a : Thread) :
    (a.below.map fun th => th.isWorker.toNat).sum = a.isWorker.toNat := by
  cases a with
  | deliver cleared pc => rfl
  | sess th =>
      cases th with
      | reset k => rfl
      | request wait => rfl
      | await id => rfl
      | _ => simp [Thread.below, Thread.isWorker]

theorem outline_below (cfg : Config) : Session.outline.Holds (simulation.conf (initial cfg)) :=
  Session.outline_initial cfg

theorem holds_below {cfg : Config} {c : Conf Shared Thread} (h : prog.Reaches (initial cfg) c) :
    Session.outline.Holds (simulation.conf c) :=
  simulation.holds Session.outline_valid (outline_below cfg) h

/-- At most one worker runs, and one does while a run is pending. -/
theorem total_workers {cfg : Config} {c : Conf Shared Thread} (h : prog.Reaches (initial cfg) c) :
    total (fun a => a.isWorker.toNat) c.pool = c.shared.sess.resetRun.isSome.toNat := by
  have hledger : (c.shared.sess.resetRun.isSome.toNat : Int) =
      total (fun th => th.isWorker.toNat) (c.pool.flatMap Thread.below) :=
    (holds_below h).ledger .worker
  rw [hledger, total_flatMap]
  simp only [weight_below]

/-- A worker that delivers nil has cleared the generation. -/
private theorem deliver_cleared {cfg : Config} {c : Conf Shared Thread}
    (h : prog.Reaches (initial cfg) c) {l : Nat} {pc : DeliverPc}
    (hmem : .deliver (some l) pc ∈ c.pool) : c.shared.sess.gen = l + 1 := by
  have hbelow : Session.Thread.worker (.deliver (some l)) ∈ (simulation.conf c).pool :=
    List.mem_flatMap.mpr ⟨_, hmem, List.mem_singleton.mpr rfl⟩
  exact ((holds_below h).loc _ hbelow).1

/-- **Every reset request gets one result, its own.**  A channel is sent at most one
value, and is closed after it; the value is nil if the run that the request joined
has cleared a generation, and an error if it has panicked, and that run ends after
the request.  Once no run is pending, every request was answered.  The worker never
blocks while it delivers, at most one worker runs, and a `run` call that finds a
pending run starts nothing. -/
theorem reset_request_answered (cfg : Config) (c : Conf Shared Thread)
    (h : prog.Reaches (initial cfg) c) :
    (∀ id, (c.shared.chan id).sent.length ≤ 1 ∧ (c.shared.chan id).buf.length ≤ 1 ∧
      ((c.shared.chan id).closed = true → ∃ v, (c.shared.chan id).sent = [v])) ∧
      (∀ id, ∀ v ∈ (c.shared.chan id).sent,
        ∃ cleared, c.shared.outcome (c.shared.asked id) = some cleared ∧
          v = Option.isSome cleared) ∧
      (∀ id < c.shared.sess.nextRequest,
        (id ∈ c.shared.pending ∧ c.shared.asked id = c.shared.finished) ∨
          (c.shared.asked id < c.shared.finished ∧ ∃ v, (c.shared.chan id).Done v)) ∧
      (∀ cleared pc, .deliver cleared pc ∈ c.pool → step c.shared (.deliver cleared pc) ≠ []) ∧
      (∀ l pc, .deliver (some l) pc ∈ c.pool → c.shared.sess.gen = l + 1) ∧
      total (fun a => a.isWorker.toNat) c.pool = c.shared.sess.resetRun.isSome.toNat ∧
      (c.shared.sess.resetRun.isSome = true →
        ∀ s' bs, (s', bs) ∈ step c.shared (.sess (.run .register)) →
          s' = c.shared ∧ bs = []) := by
  have hc := outline_valid.holds_run (outline_initial cfg) h
  refine ⟨fun id => ?_, hc.shared.value, fun id hid => ?_, fun cleared pc hmem => ?_,
    fun l pc hmem => deliver_cleared h hmem, total_workers h, fun hpend s' bs hstep => ?_⟩
  · have hok := hc.shared.ok id
    refine ⟨hok.sent, Nat.le_trans hok.buf.length_le hok.sent, fun hclosed => ?_⟩
    exact List.length_eq_one_iff.mp (hok.closed hclosed)
  · by_cases hmem : id ∈ c.shared.pending
    · exact Or.inl ⟨hmem, (hc.shared.pending id hmem).2⟩
    · exact Or.inr (hc.shared.answered id hid hmem)
  · exact deliver_ready (hc.loc _ hmem)
  · obtain ⟨ids, hids⟩ := Option.isSome_iff_exists.mp hpend
    simp only [step] at hstep
    split at hstep
    · cases hstep
    · simp only [lift, liftOutcomes, Session.step, Session.runStep, hids, List.map_cons,
        List.map_nil] at hstep
      exact Prod.ext_iff.mp (List.mem_singleton.mp hstep)

/-- A `ResetAsync` and a `TryReset` share one run, up to the end of its delivery. -/
def sharedRun : List (Move Thread) :=
  [.start (.sess (.reset .resetAsync)), .start (.sess (.reset .tryReset)), .fire 0 0, .fire 1 0,
    .fire 0 0, .fire 1 0] ++ List.replicate 16 (.fire 0 0) ++ List.replicate 3 (.fire 2 0) ++
    List.replicate 2 (.fire 1 0) ++ List.replicate 10 (.fire 0 0)

/-- Both requests are answered by the one run. -/
theorem reset_request_answered_shared :
    ∃ cfg c, prog.Reaches (initial cfg) c ∧ c.shared.sess.nextRequest = 2 ∧
      ∀ id < 2, ∃ v, (c.shared.chan id).Done v := by
  have hrun : ∃ c ∈ prog.run (initial ⟨⟨false, none⟩, none, true, true⟩) sharedRun,
      c.shared.sess.nextRequest = 2 ∧ c.shared.pending = [] := by
    decide +kernel
  obtain ⟨c, hc, hnext, hpend⟩ := hrun
  refine ⟨_, c, ⟨_, hc⟩, hnext, fun id hid => ?_⟩
  obtain ⟨-, -, hanswer, -⟩ := reset_request_answered _ c ⟨_, hc⟩
  rcases hanswer id (by omega) with ⟨hmem, -⟩ | ⟨-, hdone⟩
  · rw [hpend] at hmem
    cases hmem
  · exact hdone

end Getty.Transport.ResetDelivery
