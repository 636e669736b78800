import Getty.Verified.ThreadPool

/-!
# Termination of thread pools

A pool that starts no threads from outside terminates when every step lowers the
weight of the thread that takes it.  The bound is on the number of moves, so it holds for
every scheduler.  Together with an invariant under which a nonempty pool is never stuck
it follows that all threads can end, from every configuration with the invariant.

## Main results

* `fires_le`, `Lowers.length_run_le` — a schedule has at most as many steps as the pool has
  weight.
* `reaches_of_measure`, `completes_of_measure`, `Lowers.completes` — what is never stuck can
  be completed.
* `Closed.reaches_append` — threads that wait do not disturb a run.
-/

namespace Getty.Verified.ThreadPool

universe u v

variable {σ : Type u} {τ : Type v}

/-! ## Completion -/

/-- **What is never stuck can be completed**: a goal is reached from every configuration with
an invariant under which some move lowers a measure, as long as the goal is not reached. -/
theorem reaches_of_measure {p : Prog σ τ} (I G : Conf σ τ → Prop) (μ : Conf σ τ → Nat)
    (hmove : ∀ c, I c → ¬ G c → ∃ m c', p.exec c m = some c' ∧ I c' ∧ μ c' < μ c)
    {c : Conf σ τ} (hc : I c) : ∃ d, p.Reaches c d ∧ I d ∧ G d := by
  induction hn : μ c using Nat.strong_induction_on generalizing c with
  | _ n ih =>
      by_cases hgoal : G c
      · exact ⟨c, ⟨[], rfl⟩, hc, hgoal⟩
      · obtain ⟨m, c', hm, hc', hlt⟩ := hmove c hc hgoal
        obtain ⟨d, hd, hinv, hgoal'⟩ := ih (μ c') (by omega) hc' rfl
        exact ⟨d, .trans ⟨[m], by simp [Prog.run, hm]⟩ hd, hinv, hgoal'⟩

/-- All threads end. -/
theorem completes_of_measure {p : Prog σ τ} (I : Conf σ τ → Prop) (μ : Conf σ τ → Nat)
    (hmove : ∀ c, I c → c.pool ≠ [] → ∃ m c', p.exec c m = some c' ∧ I c' ∧ μ c' < μ c)
    {c : Conf σ τ} (hc : I c) : ∃ d, p.Reaches c d ∧ d.pool = [] := by
  obtain ⟨d, hd, -, hpool⟩ := reaches_of_measure I (fun c => c.pool = []) μ hmove hc
  exact ⟨d, hd, hpool⟩

/-! ## Schedules of bounded length -/

/-- The number of steps of threads in a schedule. -/
def fires : List (Move τ) → Nat
  | [] => 0
  | .start _ :: ms => fires ms
  | .fire _ _ :: ms => fires ms + 1

/-- The number of threads that a schedule starts. -/
def starts : List (Move τ) → Nat
  | [] => 0
  | .start _ :: ms => starts ms + 1
  | .fire _ _ :: ms => starts ms

/-- **Every schedule is short**, when every step lowers the weight of the thread that takes
it, and the threads that are started weigh at most `k`. -/
theorem fires_le {p : Prog σ τ} (wt : τ → Nat) {k : Nat} (I : Conf σ τ → Prop)
    (hI : ∀ c c' m, I c → p.exec c m = some c' → I c')
    (hentry : ∀ s a, p.entry s a = true → wt a ≤ k)
    (hstep : ∀ c, I c → ∀ a ∈ c.pool, ∀ s' bs, (s', bs) ∈ p.step c.shared a →
      total wt bs < wt a) {c c' : Conf σ τ} {ms : List (Move τ)} (hc : I c)
    (hrun : p.run c ms = some c') :
    fires ms + total wt c'.pool ≤ total wt c.pool + k * starts ms := by
  induction ms generalizing c with
  | nil =>
      cases hrun
      simp [fires, starts]
  | cons m ms ih =>
      rw [run_cons] at hrun
      cases hm : p.exec c m with
      | none => simp [hm] at hrun
      | some d =>
          rw [hm, Option.bind_some] at hrun
          have hrest := ih (hI c d m hc hm) hrun
          cases m with
          | start a =>
              obtain ⟨ha, rfl⟩ := exec_start_iff.mp hm
              have hle := hentry c.shared a ha
              simp only [fires, starts, total_append, total_cons, total_nil] at hrest ⊢
              push_cast
              rw [Int.mul_add]
              omega
          | fire i j =>
              obtain ⟨l, a, r, s', bs, hpool, hmem, rfl⟩ := fire_cases hm
              have hlt := hstep c hc a (by rw [hpool]; simp) s' bs hmem
              rw [hpool]
              simp only [fires, starts, total_append, total_cons] at hrest ⊢
              push_cast
              omega

/-! ## Programs that start no threads -/

/-- A program whose threads are all there from the start. -/
def Closed (p : Prog σ τ) : Prop := ∀ s a, p.entry s a = false

/-- No thread is started from outside, and every step lowers the weight of its thread. -/
structure Lowers (p : Prog σ τ) (wt : τ → Nat) : Prop where
  entry : Closed p
  step : ∀ s a s' bs, (s', bs) ∈ p.step s a → total wt bs < wt a

section Lowers

variable {p : Prog σ τ} {wt : τ → Nat}

theorem Lowers.exec_lt (h : Lowers p wt) {c c' : Conf σ τ} {m : Move τ}
    (hm : p.exec c m = some c') : total wt c'.pool < total wt c.pool := by
  rcases exec_cases hm with ⟨a, hentry, -⟩ | ⟨l, a, r, s', bs, hpool, hstep, rfl⟩
  · rw [h.entry] at hentry
    cases hentry
  · have hlt := h.step c.shared a s' bs hstep
    rw [hpool]
    simp only [total_append, total_cons]
    omega

/-- **Every schedule is short.** -/
theorem Lowers.length_run_le (h : Lowers p wt) {c c' : Conf σ τ} {ms : List (Move τ)}
    (hrun : p.run c ms = some c') : ms.length + total wt c'.pool ≤ total wt c.pool := by
  induction ms generalizing c with
  | nil =>
      cases hrun
      simp
  | cons m ms ih =>
      rw [run_cons] at hrun
      cases hm : p.exec c m with
      | none => simp [hm] at hrun
      | some d =>
          rw [hm, Option.bind_some] at hrun
          have hlt := h.exec_lt hm
          have hrest := ih hrun
          rw [List.length_cons]
          push_cast
          omega

theorem Lowers.completes (h : Lowers p wt) (I : Conf σ τ → Prop)
    (hstep : ∀ c c' m, I c → p.exec c m = some c' → I c')
    (hlive : ∀ c, I c → c.pool ≠ [] → ∃ m c', p.exec c m = some c') {c : Conf σ τ} (hc : I c) :
    ∃ d, p.Reaches c d ∧ d.pool = [] := by
  refine completes_of_measure I (fun c => (total wt c.pool).toNat) (fun c hc hpool => ?_) hc
  obtain ⟨m, c', hm⟩ := hlive c hc hpool
  have hlt := h.exec_lt hm
  have hpos := total_nonneg wt c'.pool
  exact ⟨m, c', hm, hstep c c' m hc hm, by omega⟩

end Lowers

/-! ## Threads that wait -/

/-- Threads at the end of the pool that take no step change nothing for the others. -/
private theorem exec_fire_append {p : Prog σ τ} {c c' : Conf σ τ} {i j : Nat}
    (h : p.exec c (.fire i j) = some c') (ts : List τ) :
    p.exec ⟨c.shared, c.pool ++ ts⟩ (.fire i j) = some ⟨c'.shared, c'.pool ++ ts⟩ := by
  obtain ⟨a, out, hi, hj, rfl⟩ := exec_fire_iff.mp h
  obtain ⟨hlt, -⟩ := List.getElem?_eq_some_iff.mp hi
  refine exec_fire_iff.mpr ⟨a, out, ?_, hj, ?_⟩
  · rw [List.getElem?_append_left hlt, hi]
  · rw [List.take_append_of_le_length (Nat.le_of_lt hlt), List.drop_append_of_le_length hlt,
      ← List.append_assoc]

theorem Closed.fires {p : Prog σ τ} (hp : Closed p) {c c' : Conf σ τ} {m : Move τ}
    (h : p.exec c m = some c') : ∃ i j, m = .fire i j := by
  cases m with
  | start a => simp [Prog.exec, hp c.shared a] at h
  | fire i j => exact ⟨i, j, rfl⟩

/-- **A run with more threads**: the new ones are there, and wait. -/
theorem Closed.reaches_append {p : Prog σ τ} (hp : Closed p) {c d : Conf σ τ}
    (h : p.Reaches c d) (ts : List τ) :
    p.Reaches ⟨c.shared, c.pool ++ ts⟩ ⟨d.shared, d.pool ++ ts⟩ := by
  refine h.induct (fun d => p.Reaches ⟨c.shared, c.pool ++ ts⟩ ⟨d.shared, d.pool ++ ts⟩)
    ⟨[], rfl⟩ fun d d' m hd hm => ?_
  obtain ⟨i, j, rfl⟩ := hp.fires hm
  exact hd.snoc (exec_fire_append hm ts)

end Getty.Verified.ThreadPool
