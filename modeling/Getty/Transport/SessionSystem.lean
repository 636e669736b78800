import Getty.Transport.SessionFence
import Getty.Transport.SessionSteps
import Mathlib.Logic.Relation
import Mathlib.Data.List.FinRange

/-!
# Several sessions whose callbacks reset each other

`n` sessions run side by side.  A goroutine is a stack of activations: while one of
them is inside a user callback, the callback may call the API of any session, its
own included, and the call is executed on top of it.  `Reset` and `TryReset` decide
once, from `callbackDepth`, whether to wait for the reset worker; a callback that
waits keeps its own session's worker waiting, so that a cycle of such waits would
never end.

Time is a ghost here.  A callback is stamped when it is entered, and a reset request
when it reads `callbackDepth`.  A request that waits has read zero, so every callback
that is active in the session it waits for is younger than the request, and the
request is younger than the callback it was made in.

## Main results

* `simulation` — every session of the system is a run of `Session.prog`.
* `reset_waits_acyclic` — `callbackDepth` counts the active callbacks, and the
  waits of callbacks for resets have no cycle.
-/

namespace Getty.Transport.SessionSystem

open Getty.Verified.ThreadPool
open Getty.Transport.Session (Config)

variable {n : Nat}

/-! ## Goroutines and steps -/

/-- An activation on the stack of a goroutine: a thread of one session.  `since` is
the time of its last step, and for a reset request the time at which it read
`callbackDepth`. -/
structure Frame (n : Nat) where
  sess : Fin n
  th : Session.Thread
  since : Nat
  deriving DecidableEq

/-- A goroutine, innermost activation first; it has ended when the stack is empty. -/
abbrev Goroutine (n : Nat) := List (Frame n)

structure Shared (n : Nat) where
  sess : Fin n → Session.Shared
  clock : Nat

/-- What a callback may call: a reset, `Close`, or a write. -/
def api : List Session.Thread :=
  [.reset .reset, .reset .tryReset, .reset .resetAsync, .stop .readOnce .close,
    .write (.pkg false) .closedCheck, .write (.pkg true) .closedCheck,
    .write (.bytes false) .closedCheck, .write (.bytes true) .closedCheck,
    .write (.batch false) .closedCheck, .write (.batch true) .closedCheck,
    .write .send (.lock none none)]

/-- What the goroutine itself goes on with after a step.  `ResetAsync` starts the
worker and goes on with the wait for its result. -/
def own : Session.Thread → List Session.Thread → List Session.Thread
  | .request _, bs => bs.filter Session.Thread.asks
  | _, bs => bs.take 1

/-- The goroutines started by a step. -/
def spawned : Session.Thread → List Session.Thread → List Session.Thread
  | .request _, bs => bs.filter (fun b => !b.asks)
  | _, bs => bs.drop 1

/-- The activation after a step at time `now`. -/
def Frame.next (f : Frame n) (now : Nat) (b : Session.Thread) : Frame n :=
  match f.th with
  | .request _ => ⟨f.sess, b, f.since⟩
  | _ => ⟨f.sess, b, now⟩

/-- The innermost activation takes a step of its session; when it ends, the callback
below it goes on. -/
def sessionStep (s : Shared n) (f : Frame n) (rest : Goroutine n) :
    List (Shared n × List (Goroutine n)) :=
  (Session.step (s.sess f.sess) f.th).map (fun out =>
    (⟨Function.update s.sess f.sess out.1, s.clock + 1⟩,
      ((own f.th out.2).map (f.next s.clock) ++ rest) ::
        (spawned f.th out.2).map (fun b => [⟨f.sess, b, s.clock⟩])))

/-- A callback calls a session. -/
def callStep (s : Shared n) (f : Frame n) (rest : Goroutine n) :
    List (Shared n × List (Goroutine n)) :=
  if f.th.calls then
    (List.finRange n).flatMap (fun j => api.map (fun a =>
      (⟨s.sess, s.clock + 1⟩, [⟨j, a, s.clock⟩ :: f :: rest])))
  else []

def step (s : Shared n) : Goroutine n → List (Shared n × List (Goroutine n))
  | [] => []
  | f :: rest => sessionStep s f rest ++ callStep s f rest

/-- A goroutine starts with one activation of one session. -/
def entry (s : Shared n) : Goroutine n → Bool
  | [f] => Session.entry (s.sess f.sess) f.th && f.since == 0
  | _ => false

def prog : Prog (Shared n) (Goroutine n) where
  entry := entry
  step := step

def initial (cfg : Fin n → Config) : Conf (Shared n) (Goroutine n) :=
  ⟨⟨fun i => Session.Shared.init (cfg i), 1⟩, []⟩

/-- The activations of all goroutines. -/
def frames (c : Conf (Shared n) (Goroutine n)) : List (Frame n) := c.pool.flatten

/-- The number of active callbacks of a session. -/
def callbacks (c : Conf (Shared n) (Goroutine n)) (i : Fin n) : Nat :=
  (frames c).countP (fun f => f.sess = i ∧ f.th.calls)

/-- A callback of session `i` is blocked inside a `Reset` or `TryReset` of session
`j`, which it called itself or through calls on top of it. -/
def Waits (c : Conf (Shared n) (Goroutine n)) (i j : Fin n) : Prop :=
  ∃ r rest, r :: rest ∈ c.pool ∧ r.sess = j ∧ r.th.waits = true ∧
    ∃ f ∈ rest, f.sess = i ∧ f.th.calls = true

/-! ## What a step of a goroutine can do -/

theorem mem_step {s s' : Shared n} {g : Goroutine n} {gs : List (Goroutine n)}
    (h : (s', gs) ∈ step s g) :
    ∃ f rest, g = f :: rest ∧
      ((∃ x bs, (x, bs) ∈ Session.step (s.sess f.sess) f.th ∧
          s' = ⟨Function.update s.sess f.sess x, s.clock + 1⟩ ∧
          gs = ((own f.th bs).map (f.next s.clock) ++ rest) ::
            (spawned f.th bs).map (fun b => [⟨f.sess, b, s.clock⟩])) ∨
        ∃ j, ∃ a ∈ api, s' = ⟨s.sess, s.clock + 1⟩ ∧ gs = [⟨j, a, s.clock⟩ :: f :: rest]) := by
  cases g with
  | nil => cases h
  | cons f rest =>
      refine ⟨f, rest, rfl, ?_⟩
      rcases List.mem_append.mp h with h | h
      · obtain ⟨⟨x, bs⟩, hstep, heq⟩ := List.mem_map.mp h
        cases heq
        exact Or.inl ⟨x, bs, hstep, rfl, rfl⟩
      · simp only [callStep] at h
        split at h
        · obtain ⟨j, -, hj⟩ := List.mem_flatMap.mp h
          obtain ⟨a, ha, heq⟩ := List.mem_map.mp hj
          cases heq
          exact Or.inr ⟨j, a, ha, rfl, rfl⟩
        · cases h

theorem api_entry {a : Session.Thread} (h : a ∈ api) (s : Session.Shared) :
    Session.entry s a = true := by
  simp only [api, List.mem_cons, List.not_mem_nil, or_false] at h
  rcases h with rfl | rfl | rfl | rfl | rfl | rfl | rfl | rfl | rfl | rfl | rfl <;> rfl

theorem perm_own_spawned (a : Session.Thread) (bs : List Session.Thread) :
    (own a bs ++ spawned a bs).Perm bs := by
  cases a with
  | request wait => exact List.filter_append_perm Session.Thread.asks bs
  | _ => exact .of_eq (List.take_append_drop 1 bs)

/-- A goroutine goes on with at most one activation. -/
private theorem own_le_one {s s' : Session.Shared} {a : Session.Thread} {bs : List Session.Thread}
    (h : (s', bs) ∈ Session.step s a) : own a bs = [] ∨ ∃ b, own a bs = [b] := by
  cases a with
  | request wait =>
      simp only [Session.step, Session.requestStep] at h
      split at h <;> cases List.mem_singleton.mp h <;> cases wait
      · exact Or.inl rfl
      · exact Or.inr ⟨_, rfl⟩
      · exact Or.inl rfl
      · exact Or.inr ⟨_, rfl⟩
  | _ =>
      cases bs with
      | nil => exact Or.inl rfl
      | cons b bs => exact Or.inr ⟨b, rfl⟩

/-- An entry thread neither waits nor is inside a callback. -/
theorem entry_quiet {s : Session.Shared} {a : Session.Thread} (h : Session.entry s a = true) :
    a.waits = false ∧ a.calls = false := by
  unfold Session.entry at h
  split at h <;> first | exact ⟨rfl, rfl⟩ | cases h

/-! ## Every session runs on its own -/

/-- What session `i` sees of an activation. -/
def Frame.on (i : Fin n) (f : Frame n) : List Session.Thread :=
  if f.sess = i then [f.th] else []

/-- What session `i` sees of a goroutine. -/
def view (i : Fin n) (g : Goroutine n) : List Session.Thread := g.flatMap (Frame.on i)

theorem view_cons (i : Fin n) (f : Frame n) (g : Goroutine n) :
    view i (f :: g) = f.on i ++ view i g := List.flatMap_cons

theorem view_append (i : Fin n) (g g' : Goroutine n) :
    view i (g ++ g') = view i g ++ view i g' := List.flatMap_append

private theorem view_flatten (i : Fin n) (pool : List (Goroutine n)) :
    view i pool.flatten = pool.flatMap (view i) := by
  induction pool with
  | nil => rfl
  | cons g pool ih => rw [List.flatten_cons, view_append, ih, List.flatMap_cons]

/-- Activations of one session are seen by that session only. -/
private theorem view_map (i j : Fin n) (bs : List Session.Thread) (mk : Session.Thread → Frame n)
    (hsess : ∀ b, (mk b).sess = j) (hth : ∀ b, (mk b).th = b) :
    view i (bs.map mk) = if j = i then bs else [] := by
  induction bs with
  | nil => cases decEq j i <;> simp [view]
  | cons b bs ih =>
      rw [List.map_cons, view_cons, ih, Frame.on, hsess, hth]
      split <;> rfl

theorem next_sess (f : Frame n) (now : Nat) (b : Session.Thread) :
    (f.next now b).sess = f.sess := by
  unfold Frame.next
  split <;> rfl

theorem next_th (f : Frame n) (now : Nat) (b : Session.Thread) : (f.next now b).th = b := by
  unfold Frame.next
  split <;> rfl

/-- What session `i` sees after a step of session `f.sess`. -/
private theorem view_step (i : Fin n) (f : Frame n) (rest : Goroutine n) (now : Nat)
    (bs : List Session.Thread) :
    ((((own f.th bs).map (f.next now) ++ rest) ::
      (spawned f.th bs).map (fun b => [⟨f.sess, b, now⟩])).flatMap (view i)).Perm
        ((if f.sess = i then bs else []) ++ view i rest) := by
  have hspawn : ((spawned f.th bs).map (fun b => [(⟨f.sess, b, now⟩ : Frame n)])).flatMap
      (view i) = if f.sess = i then spawned f.th bs else [] := by
    rw [← view_map i f.sess (spawned f.th bs) (fun b => ⟨f.sess, b, now⟩) (fun _ => rfl)
      (fun _ => rfl), view, List.flatMap_map, List.flatMap_map]
    simp [view]
  rw [List.flatMap_cons, hspawn, view_append,
    view_map i f.sess _ _ (next_sess f now) (next_th f now)]
  split
  · rw [List.append_assoc]
    refine (List.perm_append_comm.append_left _).trans ?_
    rw [← List.append_assoc]
    exact (perm_own_spawned f.th bs).append_right (view i rest)
  · simp

/-- **Every session of the system is a run of its own.** -/
def simulation (i : Fin n) : Simulation (prog (n := n)) Session.prog where
  shared s := s.sess i
  thread := view i
  entry := by
    intro s g pool h
    match g, h with
    | [f], h =>
        by_cases hi : f.sess = i
        · have hentry : Session.prog.entry (s.sess i) f.th = true := by
            simp only [prog, entry, Bool.and_eq_true, hi] at h
            exact h.1
          simpa [view, Frame.on, hi] using Prog.Leads.start pool hentry
        · simpa [view, Frame.on, hi] using Prog.Leads.refl Session.prog _
  step := by
    intro s g s' gs pool h
    obtain ⟨f, rest, rfl, ⟨x, bs, hstep, rfl, rfl⟩ | ⟨j, a, ha, rfl, rfl⟩⟩ := mem_step h
    · have hview := (view_step i f rest s.clock bs).append_right pool
      rw [List.append_assoc] at hview
      by_cases hi : f.sess = i
      · subst hi
        rw [if_pos rfl] at hview
        have hfire := Prog.Leads.fire (p := Session.prog) (view f.sess rest ++ pool) hstep
        have hend : Conf.Equiv ⟨x, bs ++ (view f.sess rest ++ pool)⟩
            ⟨Function.update s.sess f.sess x f.sess, _ ++ pool⟩ :=
          ⟨(Function.update_self f.sess x s.sess).symm, hview.symm⟩
        rw [view_cons, Frame.on, if_pos rfl]
        exact hfire.trans (.of_equiv hend)
      · rw [if_neg hi] at hview
        rw [view_cons, Frame.on, if_neg hi]
        exact .of_equiv ⟨(Function.update_of_ne (Ne.symm hi) x s.sess).symm, hview.symm⟩
    · by_cases hj : j = i
      · subst hj
        have hstart := Prog.Leads.start (p := Session.prog) (view j (f :: rest) ++ pool)
          (api_entry ha (s.sess j))
        have hend : Conf.Equiv ⟨s.sess j, (view j (f :: rest) ++ pool) ++ [a]⟩
            ⟨s.sess j, a :: (view j (f :: rest) ++ pool)⟩ :=
          ⟨rfl, List.perm_append_singleton ..⟩
        simpa [view, Frame.on] using hstart.trans (.of_equiv hend)
      · simpa [view, Frame.on, hj] using Prog.Leads.refl Session.prog _

/-! ## Depth -/

private theorem total_view (i : Fin n) (g : Goroutine n) :
    total (fun th => th.calls.toNat) (view i g) =
      (g.countP (fun f => f.sess = i ∧ f.th.calls) : Nat) := by
  induction g with
  | nil => rfl
  | cons f g ih =>
      rw [view_cons, total_append, ih, Frame.on, List.countP_cons]
      by_cases hi : f.sess = i
      · cases hc : f.th.calls <;> simp [hi, hc, Int.add_comm]
      · simp [hi]

/-- `callbackDepth` is the number of active callbacks, in every session. -/
theorem callbackDepth_eq {cfg : Fin n → Config} {c : Conf (Shared n) (Goroutine n)}
    (h : prog.Reaches (initial cfg) c) (i : Fin n) :
    (c.shared.sess i).callbackDepth = callbacks c i := by
  have h0 : Session.outline.Holds ((simulation i).conf (initial cfg)) :=
    Session.outline_initial (cfg i)
  have hledger : (c.shared.sess i).callbackDepth =
      total (fun th => th.calls.toNat) (c.pool.flatMap (view i)) :=
    ((simulation i).holds Session.outline_valid h0 h).ledger .depth
  rw [hledger, ← view_flatten, total_view]
  rfl

/-! ## Stamps -/

/-- The stamps of the activations: all lie in the past, they fall towards the bottom
of a stack, and a wait for a session is older than its active callbacks. -/
structure Timed (c : Conf (Shared n) (Goroutine n)) : Prop where
  ticking : 0 < c.shared.clock
  past : ∀ f ∈ frames c, f.since < c.shared.clock
  sorted : ∀ g ∈ c.pool, g.Pairwise (fun f f' => f'.since < f.since)
  later : ∀ r ∈ frames c, r.th.waits = true → ∀ f ∈ frames c, f.sess = r.sess →
    f.th.calls = true → r.since < f.since

/-- An activation left behind by a step of `f` at time `now` with the threads `bs`. -/
structure Fresh (f : Frame n) (now : Nat) (bs : List Session.Thread) (x : Frame n) : Prop where
  sess : x.sess = f.sess
  th : x.th ∈ bs
  stamp : x.since = now ∨ (f.th.asks = true ∧ x.since = f.since)
  kept : f.th.waits = true → x.th.waits = true → x.since = f.since

theorem asks_of_waits {b : Session.Thread} (h : b.waits = true) : b.asks = true := by
  cases b with
  | request wait => rfl
  | await id => rfl
  | _ => cases h

/-- The activations that a step leaves behind. -/
theorem fresh_of_step {s s' : Session.Shared} {f x : Frame n} {now : Nat}
    {bs : List Session.Thread} (h : (s', bs) ∈ Session.step s f.th)
    (hx : x ∈ (own f.th bs).map (f.next now) ∨
      x ∈ (spawned f.th bs).map (fun b => (⟨f.sess, b, now⟩ : Frame n))) :
    Fresh f now bs x := by
  have hth : ∀ b, b ∈ own f.th bs ∨ b ∈ spawned f.th bs → b ∈ bs := fun b hb =>
    (perm_own_spawned f.th bs).subset (List.mem_append.mpr hb)
  -- only a request hands on its stamp, and what it waits with is its own activation
  have hwait : f.th.waits = true → ∀ b ∈ bs, ∃ wait, f.th = .request wait := by
    intro hw b hb
    cases hf : f.th with
    | request wait => exact ⟨wait, rfl⟩
    | await id =>
        rw [hf] at h
        grind [Session.step]
    | _ => rw [hf] at hw; cases hw
  rcases hx with hx | hx
  · obtain ⟨b, hb, rfl⟩ := List.mem_map.mp hx
    refine ⟨next_sess f now b, ?_, ?_, ?_⟩
    · rw [next_th]
      exact hth b (Or.inl hb)
    · unfold Frame.next
      split
      · next hreq => exact Or.inr ⟨by rw [hreq]; rfl, rfl⟩
      · exact Or.inl rfl
    · intro hw _
      obtain ⟨wait, hreq⟩ := hwait hw b (hth b (Or.inl hb))
      rw [Frame.next, hreq]
  · obtain ⟨b, hb, rfl⟩ := List.mem_map.mp hx
    refine ⟨rfl, hth b (Or.inr hb), Or.inl rfl, ?_⟩
    intro hw hbw
    obtain ⟨wait, hreq⟩ := hwait hw b (hth b (Or.inr hb))
    rw [hreq] at hb
    have hasks := (List.mem_filter.mp hb).2
    rw [asks_of_waits hbw] at hasks
    cases hasks

/-- A reset request starts no callback. -/
private theorem asks_calls {s s' : Session.Shared} {a b : Session.Thread} {bs : List Session.Thread}
    (h : (s', bs) ∈ Session.step s a) (ha : a.asks = true) (hb : b ∈ bs) :
    b.calls = false := by
  cases Session.step_leaves h hb with
  | ask | await | startReset => rfl
  | _ => cases ha

/-- No callback of a session is active while its `callbackDepth` reads zero. -/
private theorem no_callback {cfg : Fin n → Config} {c : Conf (Shared n) (Goroutine n)}
    (h : prog.Reaches (initial cfg) c) {i : Fin n} (h0 : (c.shared.sess i).callbackDepth ≤ 0)
    {f : Frame n} (hf : f ∈ frames c) (hi : f.sess = i) : f.th.calls = false := by
  have hdepth := callbackDepth_eq h i
  have hzero : callbacks c i = 0 := by omega
  have hnot := List.countP_eq_zero.mp hzero f hf
  simpa [hi] using hnot

/-- The activations after a step are old ones that did not step, and fresh ones. -/
theorem frames_fire {c : Conf (Shared n) (Goroutine n)} {l r : List (Goroutine n)} {f : Frame n}
    {rest : Goroutine n} {s' : Shared n} {bs : List Session.Thread} {x : Frame n}
    (hpool : c.pool = l ++ (f :: rest) :: r) {y : Session.Shared}
    (hstep : (y, bs) ∈ Session.step (c.shared.sess f.sess) f.th)
    (hx : x ∈ frames ⟨s', l ++ (((own f.th bs).map (f.next c.shared.clock) ++ rest) ::
      (spawned f.th bs).map (fun b => [⟨f.sess, b, c.shared.clock⟩])) ++ r⟩) :
    x ∈ frames c ∨ Fresh f c.shared.clock bs x := by
  have hold : x ∈ l.flatten ∨ x ∈ rest ∨ x ∈ r.flatten → x ∈ frames c := by
    intro h
    rw [frames, hpool]
    simp only [List.flatten_append, List.flatten_cons, List.mem_append, List.mem_cons]
    tauto
  simp only [frames, List.flatten_append, List.flatten_cons, List.mem_append] at hx
  rcases hx with (hx | (hx | hx) | hx) | hx
  · exact Or.inl (hold (Or.inl hx))
  · exact Or.inr (fresh_of_step hstep (Or.inl hx))
  · exact Or.inl (hold (Or.inr (Or.inl hx)))
  · refine Or.inr (fresh_of_step hstep (Or.inr ?_))
    obtain ⟨g, hg, hxg⟩ := List.mem_flatten.mp hx
    obtain ⟨b, hb, rfl⟩ := List.mem_map.mp hg
    rw [List.mem_singleton.mp hxg]
    exact List.mem_map.mpr ⟨b, hb, rfl⟩
  · exact Or.inl (hold (Or.inr (Or.inr hx)))

/-- A step of a session keeps the stamps in order. -/
private theorem timed_sessionStep {cfg : Fin n → Config} {c : Conf (Shared n) (Goroutine n)}
    (h : prog.Reaches (initial cfg) c) (hc : Timed c) {l r : List (Goroutine n)} {f : Frame n}
    {rest : Goroutine n} (hpool : c.pool = l ++ (f :: rest) :: r) {y : Session.Shared}
    {bs : List Session.Thread} (hstep : (y, bs) ∈ Session.step (c.shared.sess f.sess) f.th) :
    Timed ⟨⟨Function.update c.shared.sess f.sess y, c.shared.clock + 1⟩,
      l ++ (((own f.th bs).map (f.next c.shared.clock) ++ rest) ::
        (spawned f.th bs).map (fun b => [⟨f.sess, b, c.shared.clock⟩])) ++ r⟩ := by
  have hf : f ∈ frames c := by
    rw [frames, hpool]
    simp
  have hfpast := hc.past f hf
  have hstamp : ∀ x, Fresh f c.shared.clock bs x → f.since ≤ x.since ∧
      x.since ≤ c.shared.clock := by
    intro x hx
    rcases hx.stamp with hx | ⟨-, hx⟩ <;> omega
  refine ⟨Nat.succ_pos _, ?_, ?_, ?_⟩
  · intro x hx
    show x.since < c.shared.clock + 1
    rcases frames_fire hpool hstep hx with hx | hx
    · have := hc.past x hx
      omega
    · have := hstamp x hx
      omega
  · intro g hg
    simp only [List.mem_append, List.mem_cons] at hg
    rcases hg with (hg | rfl | hg) | hg
    · exact hc.sorted g (by rw [hpool]; simp [hg])
    · have hsorted := hc.sorted (f :: rest) (by rw [hpool]; simp)
      rcases own_le_one hstep with hown | ⟨b, hown⟩
      · rw [hown]
        exact (List.pairwise_cons.mp hsorted).2
      · rw [hown]
        refine List.pairwise_cons.mpr ⟨?_, (List.pairwise_cons.mp hsorted).2⟩
        intro x hx
        have hbelow := (List.pairwise_cons.mp hsorted).1 x hx
        have hfresh : Fresh f c.shared.clock bs (f.next c.shared.clock b) :=
          fresh_of_step hstep (Or.inl (by rw [hown]; exact List.mem_singleton_self _))
        have := hstamp _ hfresh
        omega
    · obtain ⟨b, -, rfl⟩ := List.mem_map.mp hg
      exact List.pairwise_singleton _ _
    · exact hc.sorted g (by rw [hpool]; simp [hg])
  · intro w hw hwaits x hx hsess hcalls
    rcases frames_fire hpool hstep hw with hw | hw
    · rcases frames_fire hpool hstep hx with hx | hx
      · exact hc.later w hw hwaits x hx hsess hcalls
      · -- a callback that begins now is younger than every wait
        have hnow : x.since = c.shared.clock := by
          rcases hx.stamp with h | ⟨hasks, -⟩
          · exact h
          · rw [asks_calls hstep hasks hx.th] at hcalls
            cases hcalls
        have := hc.past w hw
        omega
    · have hasks : f.th.asks = true := by
        rcases Session.step_waits hstep hw.th hwaits with h0 | hfw
        · cases hfa : f.th.asks with
          | true => rfl
          | false =>
              have := (Session.step_asks hfa hstep).1 w.th hw.th
              rw [asks_of_waits hwaits] at this
              cases this
        · exact asks_of_waits hfw
      rcases frames_fire hpool hstep hx with hx | hx
      · rcases Session.step_waits hstep hw.th hwaits with h0 | hfw
        · -- the wait begins: no callback of the session is active
          rw [no_callback h h0 hx (hsess.trans hw.sess)] at hcalls
          cases hcalls
        · rw [hw.kept hfw hwaits]
          exact hc.later f hf hfw x hx (hsess.trans hw.sess) hcalls
      · rw [asks_calls hstep hasks hx.th] at hcalls
        cases hcalls

/-- An activation that neither waits nor is inside a callback may be added anywhere. -/
private theorem later_quiet {c c' : Conf (Shared n) (Goroutine n)} (hc : Timed c) {a : Frame n}
    (hquiet : a.th.waits = false ∧ a.th.calls = false)
    (hframes : ∀ x ∈ frames c', x ∈ frames c ∨ x = a) :
    ∀ w ∈ frames c', w.th.waits = true → ∀ f ∈ frames c', f.sess = w.sess →
      f.th.calls = true → w.since < f.since := by
  intro w hw hwaits f hf hsess hcalls
  rcases hframes w hw with hw | rfl
  · rcases hframes f hf with hf | rfl
    · exact hc.later w hw hwaits f hf hsess hcalls
    · rw [hquiet.2] at hcalls
      cases hcalls
  · rw [hquiet.1] at hwaits
    cases hwaits

/-- **Step lemma.**  Every move keeps the stamps in order. -/
theorem timed_exec {cfg : Fin n → Config} {c c' : Conf (Shared n) (Goroutine n)}
    {m : Move (Goroutine n)} (h : prog.Reaches (initial cfg) c) (hc : Timed c)
    (hm : prog.exec c m = some c') : Timed c' := by
  rcases exec_cases hm with ⟨g, hentry, rfl⟩ | ⟨l, g, r, s', gs, hpool, hstep, rfl⟩
  · match g, hentry with
    | [f], hentry =>
        simp only [prog, entry, Bool.and_eq_true, beq_iff_eq] at hentry
        have hframes : ∀ x ∈ frames (⟨c.shared, c.pool ++ [[f]]⟩ : Conf _ (Goroutine n)),
            x ∈ frames c ∨ x = f := by
          intro x hx
          simpa [frames] using hx
        refine ⟨hc.ticking, ?_, ?_, later_quiet hc (entry_quiet hentry.1) hframes⟩
        · intro x hx
          rcases hframes x hx with hx | rfl
          · exact hc.past x hx
          · rw [hentry.2]
            exact hc.ticking
        · intro g hg
          rcases List.mem_append.mp hg with hg | hg
          · exact hc.sorted g hg
          · rw [List.mem_singleton.mp hg]
            exact List.pairwise_singleton _ _
  · obtain ⟨f, rest, rfl, ⟨y, bs, hsess, rfl, rfl⟩ | ⟨j, a, ha, rfl, rfl⟩⟩ := mem_step hstep
    · exact timed_sessionStep h hc hpool hsess
    · have hframes : ∀ x ∈ frames (⟨⟨c.shared.sess, c.shared.clock + 1⟩,
          l ++ [⟨j, a, c.shared.clock⟩ :: f :: rest] ++ r⟩ : Conf (Shared n) (Goroutine n)),
          x ∈ frames c ∨ x = ⟨j, a, c.shared.clock⟩ := by
        intro x hx
        rw [frames, hpool]
        simp only [frames, List.flatten_append, List.flatten_cons, List.mem_append,
          List.mem_cons] at hx ⊢
        grind
      refine ⟨Nat.succ_pos _, ?_, ?_,
        later_quiet hc (entry_quiet (api_entry ha (c.shared.sess j))) hframes⟩
      · intro x hx
        show x.since < c.shared.clock + 1
        rcases hframes x hx with hx | rfl
        · have := hc.past x hx
          omega
        · exact Nat.lt_succ_self _
      · intro g hg
        simp only [List.mem_append, List.mem_singleton] at hg
        rcases hg with (hg | rfl) | hg
        · exact hc.sorted g (by rw [hpool]; simp [hg])
        · refine List.pairwise_cons.mpr ⟨?_, hc.sorted _ (by rw [hpool]; simp)⟩
          intro x hx
          apply hc.past x
          rw [frames, hpool]
          exact List.mem_flatten.mpr ⟨f :: rest, by simp, hx⟩
        · exact hc.sorted g (by rw [hpool]; simp [hg])

/-- **Run lemma.**  The stamps are in order in every reachable configuration. -/
theorem timed_reaches {cfg : Fin n → Config} {c : Conf (Shared n) (Goroutine n)}
    (h : prog.Reaches (initial cfg) c) : Timed c := by
  have hboth : prog.Reaches (initial cfg) c ∧ Timed c := by
    refine h.induct (fun c => prog.Reaches (initial cfg) c ∧ Timed c) ⟨⟨[], rfl⟩, ?_⟩ ?_
    · exact ⟨Nat.one_pos, (fun f hf => by cases hf), (fun g hg => by cases hg),
        (fun f hf => by cases hf)⟩
    · intro c c' m hc hm
      exact ⟨hc.1.snoc hm, timed_exec hc.1 hc.2 hm⟩
  exact hboth.2

/-! ## No cycle of waits -/

/-- A callback that is blocked in a reset of session `j`, directly or through other
sessions, is older than every active callback of `j`. -/
private theorem older_of_waits {c : Conf (Shared n) (Goroutine n)} (hc : Timed c) {i j : Fin n}
    (h : Relation.TransGen (Waits c) i j) :
    ∃ f ∈ frames c, f.sess = i ∧ f.th.calls = true ∧
      ∀ f' ∈ frames c, f'.sess = j → f'.th.calls = true → f.since < f'.since := by
  have hone : ∀ {i j : Fin n}, Waits c i j → ∃ f ∈ frames c, f.sess = i ∧ f.th.calls = true ∧
      ∀ f' ∈ frames c, f'.sess = j → f'.th.calls = true → f.since < f'.since := by
    intro i j ⟨w, rest, hmem, hj, hw, f, hf, hi, hcalls⟩
    refine ⟨f, List.mem_flatten.mpr ⟨_, hmem, List.mem_cons_of_mem w hf⟩, hi, hcalls, ?_⟩
    intro f' hf' hj' hcalls'
    have hbelow : f.since < w.since := (List.pairwise_cons.mp (hc.sorted _ hmem)).1 f hf
    have hyoung := hc.later w (List.mem_flatten.mpr ⟨_, hmem, List.mem_cons_self ..⟩) hw f' hf'
      (hj'.trans hj.symm) hcalls'
    omega
  induction h with
  | single h => exact hone h
  | tail _ h ih =>
      obtain ⟨f, hf, hi, hcalls, hold⟩ := ih
      obtain ⟨f', hf', hj, hcalls', hold'⟩ := hone h
      refine ⟨f, hf, hi, hcalls, fun x hx hk hcallsx => ?_⟩
      exact (hold f' hf' hj hcalls').trans (hold' x hx hk hcallsx)

/-- **Resets from callbacks never wait for each other in a cycle.**  In every
reachable state `callbackDepth` of each session is the number of its active
callbacks, and no chain of callbacks blocked in a reset of the next one's session
leads back to where it began, whatever the reset workers are doing. -/
theorem reset_waits_acyclic (cfg : Fin n → Config) (c : Conf (Shared n) (Goroutine n))
    (h : prog.Reaches (initial cfg) c) :
    (∀ i, (c.shared.sess i).callbackDepth = callbacks c i) ∧
      ∀ i, ¬ Relation.TransGen (Waits c) i i := by
  refine ⟨callbackDepth_eq h, fun i hcycle => ?_⟩
  obtain ⟨f, hf, hi, hcalls, hold⟩ := older_of_waits (timed_reaches h) hcycle
  exact Nat.lt_irrefl _ (hold f hf hi hcalls)

/-- The `OnOpen` callback of session 0 resets session 1, whose `Writer` then resets
session 0. -/
def mutualResets : List (Move (Goroutine 2)) :=
  [.start [⟨0, .run .register, 0⟩], .fire 0 0, .fire 0 0, .fire 0 0, .fire 0 13, .fire 0 0,
    .start [⟨1, .write (.pkg false) .closedCheck, 0⟩], .fire 1 0, .fire 1 0, .fire 1 0, .fire 1 0,
    .fire 1 2, .fire 1 0, .fire 0 0, .fire 2 0]

/-- The first of two mutual resets waits, and so the second one does not. -/
theorem reset_waits_acyclic_mutual :
    ∃ (cfg : Fin 2 → Config) (c : Conf (Shared 2) (Goroutine 2)),
      prog.Reaches (initial cfg) c ∧ callbacks c 0 = 1 ∧ callbacks c 1 = 1 ∧
        (∀ i, (c.shared.sess i).resetRun = some [0]) ∧ Waits c 0 1 ∧ ¬ Waits c 1 0 := by
  have hrun : ∃ c ∈ prog.run (initial fun _ => ⟨⟨false, none⟩, none, true, true⟩) mutualResets,
      callbacks c 0 = 1 ∧ callbacks c 1 = 1 ∧
        (∀ i, (c.shared.sess i).resetRun = some [0]) ∧
        c.pool.head? = some [⟨1, .await 0, 5⟩, ⟨0, .run .inOpen, 3⟩] := by
    decide +kernel
  obtain ⟨c, hc, hzero, hone, hreset, hhead⟩ := hrun
  have hwait : Waits c 0 1 :=
    ⟨_, _, List.mem_of_mem_head? hhead, rfl, rfl, _, List.mem_singleton_self _, rfl, rfl⟩
  refine ⟨_, c, ⟨_, hc⟩, hzero, hone, hreset, hwait, fun hback => ?_⟩
  exact (reset_waits_acyclic _ c ⟨_, hc⟩).2 0 ((Relation.TransGen.single hwait).tail hback)

end Getty.Transport.SessionSystem
