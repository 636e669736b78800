import Getty.Verified.Ghost
import Getty.Transport.ClientPoolEffect
import Mathlib.Logic.Relation

/-!
# Who waits for whom in the client

A goroutine of the client waits in three places: for the client's mutex, for the body of a
session's `once` that another `stop` call is in, and for the body of the client's own `once`.
Whoever holds the mutex waits for nothing: sessions are closed outside the critical sections.
The body of a session's `once` calls `runReconnect` and so may wait for the mutex; and
`client.stop` closes sessions and so may wait for such a body.  That is all, so that there is
no cycle.

A reset worker that has closed its session waits for other things: for the goroutines of the
session, for its lifecycle and for `packetLock`, which are not the client's.  Nobody waits for
such a worker.

The one way to get stuck for good is a panic: `run` of a session that has lost its connection
since the callback returned.

## Main results

* `bodies_valid`, `exists_inBody` — while a `once` is running, some thread is in its body.
* `waits_for_ready` — whoever cannot go on waits for a thread that can.
-/

namespace Getty.Transport.ClientPool.Progress

open Getty.Verified.ThreadPool
open Getty.Transport.Reconnect (Options)

/-! ## Who is in the body of a `once` -/

/-- The number of threads in the body of the `once` of session `i`, in generation `g`. -/
abbrev Bodies := Nat × Nat → Nat

/-- The client, with the bodies counted. -/
def counting (o : Options) : Prog (Shared × Bodies) Thread :=
  (prog o).withGhost fun _ a out n => census (fun ig => inBody ig.1 ig.2) a out.2 n

def bodies : Outline (Shared × Bodies) Thread (Nat × Nat) where
  shared x := ∀ i, (x.1.sess i).once = .running → 0 < x.2 (i, (x.1.sess i).gen)
  loc _ _ := True
  val ig x := x.2 ig
  wt ig a := (inBody ig.1 ig.2 a).toNat

section Bodies

variable {o : Options} {x x' : Shared × Bodies} {a : Thread} {bs : List Thread} {i : Nat}

/-- A `stop` call stays in the body until it has finished it. -/
private theorem body_stays {s s' : Shared} {k : Cont} {pc : StopPc} (hpc : pc.inOnce = true)
    (h : StopMove s s' i k pc bs) :
    0 < bs.countP (inBody i pc.generation) ∨ s'.sess i = (s.sess i).finishOnce pc.generation := by
  cases h with
  | reads => cases hpc
  | skips g => cases hpc
  | enters g => cases hpc
  | leaves g s₁ hsess => exact Or.inr hsess
  | _ =>
      left
      simp [inBody]

theorem running_cases {s : Shared} {y : Sess} (h : Change s a i y) (hrun : y.once = .running) :
    ((s.sess i).once = .running ∧ y.gen = (s.sess i).gen) ∨
      ∃ g k, a = .stop i (.doOnce g) k ∧ (s.sess i).once = .fresh := by
  cases h with
  | run g k hi ha hg hfresh => exact Or.inr ⟨g, k, ha, hfresh⟩
  | finish g k =>
      rw [finishOnce_once] at hrun
      split at hrun
      · cases hrun
      · exact Or.inl ⟨hrun, finishOnce_gen _ g⟩
  | gc k => exact Or.inl ⟨by simpa using hrun, gc_gen _⟩
  | clear => cases hrun
  | _ => exact Or.inl ⟨hrun, rfl⟩

private theorem keeps_bodies (hs : Inv o x.1) (hl : Local x.1 a) (hb : Booked o x.1 a)
    (hx : bodies.shared x) (h : (x'.1, bs) ∈ step o x.1 a)
    (heq : ∀ i g, x'.2 (i, g) + (inBody i g a).toNat = x.2 (i, g) + bs.countP (inBody i g)) :
    bodies.shared x' := by
  intro i hrun
  rcases (effect_step hs hl hb h).sess i with hc | ⟨-, hnew⟩
  · rcases running_cases hc hrun with ⟨hold, hgen⟩ | ⟨g, k, rfl, hfresh⟩
    · have hpos := hx i hold
      have hcount := heq i (x'.1.sess i).gen
      rw [← hgen] at hpos
      cases hin : inBody i (x'.1.sess i).gen a with
      | false =>
          rw [hin, Bool.toNat_false] at hcount
          omega
      | true =>
          rw [hin, Bool.toNat_true] at hcount
          -- the thread is in the body, and stays there as long as the `once` is running
          cases a with
          | stop j pc k =>
              simp only [inBody, Bool.and_eq_true, beq_iff_eq] at hin
              obtain ⟨hpc, hg, rfl⟩ := hin
              rw [← hg] at hcount hpos ⊢
              rcases body_stays hpc (stopMove h) with hin' | hfin
              · omega
              · rw [hfin, finishOnce_once, if_pos (by rw [hg, hgen])] at hrun
                cases hrun
          | _ => cases hin
    · have hcount := heq i g
      cases stopMove h with
      | skips _ _ hsess =>
          rw [hsess, hfresh] at hrun
          cases hrun
      | enters _ hg _ hsess =>
          rw [hsess]
          simp only [hg]
          simp [inBody] at hcount
          omega
  · rw [hnew] at hrun
    cases hrun

theorem bodies_valid (o : Options) :
    bodies.ValidOver (ClientPool.outline o) (fun _ _ => True) (counting o) where
  entry x a _ h := by
    have hentry : entry x.1 a = true := h
    refine ⟨trivial, fun ig => ?_⟩
    unfold entry at hentry
    split at hentry
    case h_9 => cases hentry
    all_goals rfl
  own x a x' bs _ hs hl hb hx _ hbook h := by
    obtain ⟨hstep, hghost⟩ := mem_step_withGhost h
    have heq : ∀ i g, x'.2 (i, g) + (inBody i g a).toNat = x.2 (i, g) + bs.countP (inBody i g) := by
      intro i g
      rw [hghost]
      exact census_eq (P := fun ig : Nat × Nat => inBody ig.1 ig.2) (hbook (i, g)) bs
    refine ⟨keeps_bodies hs hl hb hx hstep heq, fun _ _ => trivial, ?_⟩
    rintro ⟨i, g⟩
    have hig := heq i g
    simp only [bodies, total_toNat]
    omega
  other _ _ _ _ _ _ _ _ _ _ _ _ _ _ := trivial

/-- **While a `once` is running, some thread is in its body.** -/
theorem exists_inBody {c : Conf Shared Thread} (h : (prog o).Reaches initial c)
    (hrun : (c.shared.sess i).once = .running) :
    ∃ b ∈ c.pool, inBody i (c.shared.sess i).gen b = true := by
  have hrun' : ∃ n, (counting o).Reaches ⟨(Shared.init, fun _ => 0), []⟩ ⟨(c.shared, n), c.pool⟩ :=
    h.ghost _
  obtain ⟨n, hn⟩ := hrun'
  have hstart : bodies.Holds ⟨(Shared.init, fun _ => 0), []⟩ :=
    ⟨fun i hi => (by cases hi), List.forall_mem_nil _, fun _ => rfl⟩
  have hc := (bodies_valid o).holds_run (ClientPool.outline_valid o) (fun _ _ _ _ => trivial)
    (outline_initial o) hstart hn
  have hledger : (n (i, (c.shared.sess i).gen) : Int) =
      c.pool.countP (inBody i (c.shared.sess i).gen) :=
    (hc.ledger (i, (c.shared.sess i).gen)).trans (total_toNat _ _)
  have hpos : 0 < n (i, (c.shared.sess i).gen) := hc.shared i hrun
  exact List.countP_pos_iff.mp (by omega)

end Bodies

/-! ## Who waits for whom -/

/-- A reset worker past its `stop`: `grWG.Wait`, `gc`, `lifecycle.wait`, and the clearing of
the fields under `packetLock`. -/
def resets : Thread → Bool
  | .gc _ .reset => true
  | .clear _ => true
  | _ => false

/-- The next step of the thread takes the client's mutex. -/
def locks : Thread → Bool
  | .trigger | .top _ | .closeSection => true
  | .sessionNum _ none => true
  | .connect _ _ .lock => true
  | .stop _ (.reconnect _) _ => true
  | _ => false

/-- Thread `a` waits for something that thread `b` has to do first. -/
inductive Waits (s : Shared) : Thread → Thread → Prop where
  | mutex {a b : Thread} (ha : locks a = true) (hm : s.mutex = true) (hb : b.inSection = true) :
      Waits s a b
  | body {i : Nat} {k : Cont} {b : Thread} (hrun : (s.sess i).once = .running)
      (hb : inBody i (s.sess i).gen b = true) : Waits s (.stop i (.doOnce (s.sess i).gen) k) b
  | close {b : Thread} (hrun : s.stopOnce = .running) (hb : b.inStop = true) : Waits s .close b

/-- `run` panics without a connection, and takes the process down. -/
def Panics (s : Shared) (a : Thread) : Prop :=
  ∃ k i, a = .connect k i .check ∧ (s.sess i).connection = false

/-- The thread does not wait. -/
def Ready (o : Options) (s : Shared) (a : Thread) : Prop := step o s a ≠ [] ∨ Panics s a

section Waiting

variable {o : Options} {s : Shared} {a b : Thread}

/-- What a thread that cannot take a step waits for. -/
theorem blocked (h : ¬ Ready o s a) :
    (locks a = true ∧ s.mutex = true) ∨
      (∃ i k, a = .stop i (.doOnce (s.sess i).gen) k ∧ (s.sess i).once = .running) ∨
      (a = .close ∧ s.stopOnce = .running) := by
  have hstep : step o s a = [] := by
    by_contra hne
    exact h (Or.inl hne)
  have hmutex : ∀ {l : Outcomes}, l ≠ [] → (if s.mutex = true then [] else l) = [] →
      s.mutex = true := by
    intro l hl hnil
    by_contra hfree
    rw [if_neg hfree] at hnil
    exact hl hnil
  cases a with
  | trigger | top | closeSection => exact Or.inl ⟨rfl, hmutex (List.cons_ne_nil _ _) hstep⟩
  | sessionNum k todo =>
      cases todo with
      | none => exact Or.inl ⟨rfl, hmutex (List.cons_ne_nil _ _) hstep⟩
      | some todo => cases todo <;> simp [step, numStep] at hstep
  | connect k i pc =>
      cases pc with
      | lock => exact Or.inl ⟨rfl, hmutex (List.cons_ne_nil _ _) hstep⟩
      | check =>
          have hconn : (s.sess i).connection = false := by
            by_contra hne
            simp [step, connectStep, hne] at hstep
          exact absurd (Or.inr ⟨k, i, rfl, hconn⟩) h
      | prune todo => cases todo <;> simp [step, connectStep] at hstep
      | unlock why => cases why <;> simp [step, connectStep] at hstep
      | run | pool | active | addSession =>
          simp only [step, connectStep] at hstep
          split at hstep <;> cases hstep
      | _ => simp [step, connectStep] at hstep
  | stop i pc k =>
      cases pc with
      | reconnect g => exact Or.inl ⟨rfl, hmutex (List.cons_ne_nil _ _) hstep⟩
      | doOnce g =>
          simp only [step, stopStep] at hstep
          split at hstep
          · next hg =>
              subst hg
              split at hstep
              · cases hstep
              · next hrun => exact Or.inr (Or.inl ⟨i, k, rfl, hrun⟩)
              · cases hstep
          · cases hstep
      | attrIgnore g found =>
          simp only [step, stopStep] at hstep
          split at hstep <;> cases hstep
      | _ => simp [step, stopStep] at hstep
  | close =>
      simp only [step] at hstep
      split at hstep
      · cases hstep
      · next hrun => exact Or.inr (Or.inr ⟨rfl, hrun⟩)
      · cases hstep
  | closeLoop todo => cases todo <;> simp [step] at hstep
  | dial k checked =>
      cases checked with
      | true => simp [step] at hstep
      | false =>
          simp only [step] at hstep
          split at hstep <;> cases hstep
  | pass | failed | reset =>
      simp only [step] at hstep
      split at hstep <;> cases hstep
  | _ => simp [step] at hstep

private theorem section_ready (h : a.inSection = true) : Ready o s a := by
  by_contra hno
  rcases blocked hno with ⟨hlock, -⟩ | ⟨i, k, rfl, -⟩ | ⟨rfl, -⟩
  · cases a with
    | sessionNum k todo => cases todo <;> simp_all [locks, Thread.inSection]
    | connect k i pc => cases pc <;> simp_all [locks, Thread.inSection, ConnPc.inSection]
    | _ => cases h
  · cases h
  · cases h

private theorem resets_of_inSection (h : a.inSection = true) : resets a = false := by
  cases a with
  | sessionNum | connect => rfl
  | _ => cases h

private theorem resets_of_inBody {i g : Nat} (h : inBody i g a = true) : resets a = false := by
  cases a with
  | stop => rfl
  | _ => cases h

private theorem resets_of_inStop (h : a.inStop = true) : resets a = false := by
  cases a with
  | gc | clear => cases h
  | _ => rfl

variable {c : Conf Shared Thread}

/-- Whoever waits for the mutex waits for a thread that can go on. -/
theorem mutex_ready (h : (prog o).Reaches initial c) (ha : locks a = true)
    (hm : c.shared.mutex = true) :
    ∃ b ∈ c.pool, resets b = false ∧ Waits c.shared a b ∧ Ready o c.shared b := by
  have hledger := ((holds_reaches h).ledger .mutex).trans (total_toNat Thread.inSection c.pool)
  simp only [ClientPool.outline, hm, Bool.toNat_true] at hledger
  obtain ⟨b, hb, hin⟩ := List.countP_pos_iff.mp (show 0 < c.pool.countP Thread.inSection by omega)
  exact ⟨b, hb, resets_of_inSection hin, .mutex ha hm hin, section_ready hin⟩

/-- Whoever waits for the body of a `once` waits for a thread that can go on, or is the next
to get the mutex. -/
private theorem body_ready (h : (prog o).Reaches initial c) {i : Nat} {k : Cont}
    (hrun : (c.shared.sess i).once = .running) :
    ∃ b ∈ c.pool, resets b = false ∧ Relation.ReflTransGen (Waits c.shared)
      (.stop i (.doOnce (c.shared.sess i).gen) k) b ∧ Ready o c.shared b := by
  obtain ⟨b, hb, hin⟩ := exists_inBody h hrun
  have hwait : Waits c.shared (.stop i (.doOnce (c.shared.sess i).gen) k) b := .body hrun hin
  by_cases hready : Ready o c.shared b
  · exact ⟨b, hb, resets_of_inBody hin, .single hwait, hready⟩
  · rcases blocked hready with ⟨hlock, hm⟩ | ⟨j, k', rfl, -⟩ | ⟨rfl, -⟩
    · obtain ⟨d, hd, hno, hwait', hdready⟩ := mutex_ready h hlock hm
      exact ⟨d, hd, hno, .tail (.single hwait) hwait', hdready⟩
    · simp [inBody] at hin
    · cases hin

/-- **Whoever cannot go on waits for a thread that can**, directly or through others, and not
for a reset worker. -/
theorem waits_for_ready (h : (prog o).Reaches initial c) (ha : a ∈ c.pool)
    (hno : resets a = false) :
    ∃ b ∈ c.pool, resets b = false ∧ Relation.ReflTransGen (Waits c.shared) a b ∧
      Ready o c.shared b := by
  have hother : ∀ a ∈ c.pool, resets a = false → a ≠ .close →
      ∃ b ∈ c.pool, resets b = false ∧ Relation.ReflTransGen (Waits c.shared) a b ∧
        Ready o c.shared b := by
    intro a ha hno hne
    by_cases hready : Ready o c.shared a
    · exact ⟨a, ha, hno, .refl, hready⟩
    · rcases blocked hready with ⟨hlock, hm⟩ | ⟨i, k, rfl, hrun⟩ | ⟨rfl, -⟩
      · obtain ⟨b, hb, hbno, hwait, hbready⟩ := mutex_ready h hlock hm
        exact ⟨b, hb, hbno, .single hwait, hbready⟩
      · exact body_ready h hrun
      · exact absurd rfl hne
  by_cases hclose : a = .close
  · subst hclose
    by_cases hready : Ready o c.shared .close
    · exact ⟨.close, ha, rfl, .refl, hready⟩
    · rcases blocked hready with ⟨hlock, -⟩ | ⟨i, k, heq, -⟩ | ⟨-, hrun⟩
      · cases hlock
      · cases heq
      · -- the body of the client's own `once` is run by a thread that closes sessions
        have hledger := ((holds_reaches h).ledger .stopOnce).trans
          (total_toNat Thread.inStop c.pool)
        simp only [ClientPool.outline, hrun, decide_true, Bool.toNat_true] at hledger
        obtain ⟨b, hb, hin⟩ := List.countP_pos_iff.mp
          (show 0 < c.pool.countP Thread.inStop by omega)
        have hne : b ≠ .close := by
          rintro rfl
          cases hin
        obtain ⟨d, hd, hdno, hwait, hdready⟩ := hother b hb (resets_of_inStop hin) hne
        exact ⟨d, hd, hdno, .head (.close hrun hin) hwait, hdready⟩
  · exact hother a ha hno hclose

end Waiting

end Getty.Transport.ClientPool.Progress
