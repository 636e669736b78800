import Mathlib.Algebra.BigOperators.Group.List.Basic
import Mathlib.Tactic.Linarith

/-!
# Thread pools: interleaving semantics with proof outlines

A concurrent program is a shared state together with a pool of threads, each
of them a local state (its program counter and its captured variables).  One
move either starts a thread or lets one thread take one atomic step; a step
rewrites the shared state and replaces the thread by a list of threads, which
is empty when the thread ends and longer than one when it starts others.

Everything is executable: `Prog.step` lists the outcomes a step may have, a
schedule is a list of `Move`s, and `Prog.run` replays it.  A statement about
every interleaving is a statement about every schedule.

The proof method is the classical one for parallel programs.  An `Outline`
gives every thread an assertion on the shared state and, on top of that, a
family of **ledgers**: an integer of the shared state that equals the sum of
the threads' weights, which is how a wait group, a reader count or a mutex is
tied to the threads that hold it.  `Outline.Valid` collects the local proof
obligations and `Outline.Valid.holds_run` is the theorem that they suffice.

## Main results

* `exec_cases` — the only two things a move can do.
* `Outline.Valid.holds_run` — a valid outline holds after every schedule.
* `Outline.Holds.weight_le`, `Outline.Holds.weight_pair_le` — what a ledger
  says about one thread, and about two different ones, of the pool.
* `Refinement.reaches`, `Simulation.reaches` — a program whose steps are runs of
  another one only reaches what the other reaches, up to the order of the pool.
* `Outline.ValidGiven.holds_run`, `Refinement.knows`, `Simulation.knows` — the
  proof outline of such a program, built on that of the other one.
-/

namespace Getty.Verified.ThreadPool

universe u v w

/-! ## Programs, schedules and runs -/

/-- A program: the threads the environment may start in a shared state, and
the outcomes of one atomic step of a thread (none when it is blocked). -/
structure Prog (σ : Type u) (τ : Type v) where
  entry : σ → τ → Bool
  step : σ → τ → List (σ × List τ)

/-- A configuration: the shared state and the live threads. -/
structure Conf (σ : Type u) (τ : Type v) where
  shared : σ
  pool : List τ

/-- One scheduling decision. -/
inductive Move (τ : Type v) where
  /-- The environment starts a thread. -/
  | start (a : τ)
  /-- Thread number `i` of the pool takes outcome number `j` of its step. -/
  | fire (i j : Nat)

variable {σ : Type u} {τ : Type v} {ι : Type w}

/-- A step that waits until a condition is gone. -/
theorem mem_blocked {α : Type u} {c : Prop} [Decidable c] {x out : α}
    (h : x ∈ if c then [] else [out]) : ¬ c ∧ x = out := by
  simpa using h

/-- A step that waits for a condition. -/
theorem mem_guarded {α : Type u} {c : Prop} [Decidable c] {x out : α}
    (h : x ∈ if c then [out] else []) : c ∧ x = out := by
  simpa using h

/-- Executes one move; `none` when it is not possible. -/
def Prog.exec (p : Prog σ τ) (c : Conf σ τ) : Move τ → Option (Conf σ τ)
  | .start a =>
      if p.entry c.shared a then some ⟨c.shared, c.pool ++ [a]⟩ else none
  | .fire i j =>
      match c.pool[i]? with
      | none => none
      | some a =>
          match (p.step c.shared a)[j]? with
          | none => none
          | some out => some ⟨out.1, c.pool.take i ++ out.2 ++ c.pool.drop (i + 1)⟩

/-- Replays a schedule. -/
def Prog.run (p : Prog σ τ) (c : Conf σ τ) : List (Move τ) → Option (Conf σ τ)
  | [] => some c
  | m :: ms =>
      match p.exec c m with
      | none => none
      | some c' => p.run c' ms

/-- A configuration some schedule leads to. -/
def Prog.Reaches (p : Prog σ τ) (c c' : Conf σ τ) : Prop :=
  ∃ ms, p.run c ms = some c'

theorem run_cons (p : Prog σ τ) (c : Conf σ τ) (m : Move τ) (ms : List (Move τ)) :
    p.run c (m :: ms) = (p.exec c m).bind (fun c' => p.run c' ms) := by
  simp only [Prog.run]
  cases p.exec c m <;> rfl

theorem run_append (p : Prog σ τ) (c : Conf σ τ) (ms ns : List (Move τ)) :
    p.run c (ms ++ ns) = (p.run c ms).bind (fun c' => p.run c' ns) := by
  induction ms generalizing c with
  | nil => rfl
  | cons m ms ih =>
      rw [List.cons_append, run_cons, run_cons]
      cases p.exec c m with
      | none => rfl
      | some c' => exact ih c'

/-- One more move after a reachable configuration. -/
theorem Prog.Reaches.snoc {p : Prog σ τ} {c₀ c c' : Conf σ τ} {m : Move τ}
    (h : p.Reaches c₀ c) (hm : p.exec c m = some c') : p.Reaches c₀ c' := by
  obtain ⟨ms, hms⟩ := h
  refine ⟨ms ++ [m], ?_⟩
  rw [run_append, hms]
  simp only [Option.bind_some, Prog.run, hm]

theorem Prog.Reaches.trans {p : Prog σ τ} {c₀ c c' : Conf σ τ} (h : p.Reaches c₀ c)
    (h' : p.Reaches c c') : p.Reaches c₀ c' := by
  obtain ⟨ms, hms⟩ := h
  obtain ⟨ns, hns⟩ := h'
  exact ⟨ms ++ ns, by rw [run_append, hms, Option.bind_some, hns]⟩

theorem exec_start_iff {p : Prog σ τ} {c c' : Conf σ τ} {a : τ} :
    p.exec c (.start a) = some c' ↔
      p.entry c.shared a = true ∧ c' = ⟨c.shared, c.pool ++ [a]⟩ := by
  rw [Prog.exec, Option.ite_none_right_eq_some, Option.some_inj, eq_comm (a := c')]

theorem exec_fire_iff {p : Prog σ τ} {c c' : Conf σ τ} {i j : Nat} :
    p.exec c (.fire i j) = some c' ↔ ∃ a out, c.pool[i]? = some a ∧
      (p.step c.shared a)[j]? = some out ∧
        c' = ⟨out.1, c.pool.take i ++ out.2 ++ c.pool.drop (i + 1)⟩ := by
  simp only [Prog.exec]
  cases c.pool[i]? with
  | none => simp
  | some a =>
      cases hj : (p.step c.shared a)[j]? with
      | none => simp [hj]
      | some out =>
          simp only [hj, Option.some.injEq]
          constructor
          · rintro rfl
            exact ⟨a, out, rfl, hj, rfl⟩
          · rintro ⟨_, _, rfl, hj', rfl⟩
            cases hj.symm.trans hj'
            rfl

/-- A step replaces one thread of the pool by an outcome. -/
theorem fire_cases {p : Prog σ τ} {c c' : Conf σ τ} {i j : Nat}
    (h : p.exec c (.fire i j) = some c') :
    ∃ l a r s' bs, c.pool = l ++ a :: r ∧ (s', bs) ∈ p.step c.shared a ∧
      c' = ⟨s', l ++ bs ++ r⟩ := by
  obtain ⟨a, out, hi, hj, rfl⟩ := exec_fire_iff.mp h
  obtain ⟨hlt, ha⟩ := List.getElem?_eq_some_iff.mp hi
  refine ⟨c.pool.take i, a, c.pool.drop (i + 1), out.1, out.2, ?_, List.mem_of_getElem? hj, rfl⟩
  rw [← ha, List.cons_getElem_drop_succ, List.take_append_drop]

/-- The only two things a move can do: append a thread that may be started,
or replace one thread of the pool by an outcome of its step. -/
theorem exec_cases {p : Prog σ τ} {c c' : Conf σ τ} {m : Move τ}
    (h : p.exec c m = some c') :
    (∃ a, p.entry c.shared a = true ∧ c' = ⟨c.shared, c.pool ++ [a]⟩) ∨
      ∃ l a r s' bs, c.pool = l ++ a :: r ∧ (s', bs) ∈ p.step c.shared a ∧
        c' = ⟨s', l ++ bs ++ r⟩ := by
  cases m with
  | start a => exact Or.inl ⟨a, exec_start_iff.mp h⟩
  | fire i j => exact Or.inr (fire_cases h)

/-- **Invariant rule.**  What holds initially and survives every move holds in
every reachable configuration. -/
theorem Prog.Reaches.induct {p : Prog σ τ} {c₀ c : Conf σ τ} (I : Conf σ τ → Prop)
    (h0 : I c₀) (hstep : ∀ c c' m, I c → p.exec c m = some c' → I c')
    (h : p.Reaches c₀ c) : I c := by
  obtain ⟨ms, hms⟩ := h
  induction ms generalizing c₀ with
  | nil =>
      cases hms
      exact h0
  | cons m ms ih =>
      simp only [Prog.run] at hms
      cases hm : p.exec c₀ m with
      | none => simp [hm] at hms
      | some c₁ =>
          simp only [hm] at hms
          exact ih (hstep c₀ c₁ m h0 hm) hms

/-! ## Weights -/

/-- The total weight of a pool. -/
def total (wt : τ → Nat) (pool : List τ) : Int := ((pool.map wt).sum : Nat)

@[simp] theorem total_nil (wt : τ → Nat) : total wt [] = 0 := rfl

@[simp] theorem total_cons (wt : τ → Nat) (a : τ) (pool : List τ) :
    total wt (a :: pool) = wt a + total wt pool := by
  simp [total]

@[simp] theorem total_append (wt : τ → Nat) (l r : List τ) :
    total wt (l ++ r) = total wt l + total wt r := by
  simp [total]

theorem total_nonneg (wt : τ → Nat) (pool : List τ) : 0 ≤ total wt pool :=
  Int.natCast_nonneg _

theorem weight_le_total (wt : τ → Nat) {a : τ} {pool : List τ} (h : a ∈ pool) :
    (wt a : Int) ≤ total wt pool := by
  obtain ⟨l, r, rfl⟩ := List.append_of_mem h
  have hl := total_nonneg wt l
  have hr := total_nonneg wt r
  rw [total_append, total_cons]
  omega

theorem total_eq_zero (wt : τ → Nat) {pool : List τ} (h : ∀ a ∈ pool, wt a = 0) :
    total wt pool = 0 := by
  induction pool with
  | nil => rfl
  | cons a pool ih =>
      rw [total_cons, h a (List.mem_cons_self ..),
        ih (fun b hb => h b (List.mem_cons_of_mem _ hb))]
      rfl

theorem total_map_eq_zero {τ' : Type v} (wt : τ → Nat) (f : τ' → τ) {pool : List τ'}
    (h : ∀ a ∈ pool, wt (f a) = 0) : total wt (pool.map f) = 0 := by
  refine total_eq_zero wt fun a ha => ?_
  obtain ⟨b, hb, rfl⟩ := List.mem_map.mp ha
  exact h b hb

/-- The total of a weight that splits into two. -/
theorem total_add {wt u w : τ → Nat} {pool : List τ} (h : ∀ a ∈ pool, wt a = u a + w a) :
    total wt pool = total u pool + total w pool := by
  induction pool with
  | nil => rfl
  | cons a pool ih =>
      have ha := h a (List.mem_cons_self ..)
      rw [total_cons, total_cons, total_cons, ih fun b hb => h b (List.mem_cons_of_mem _ hb), ha]
      omega

/-- The total of a weight that is zero or one is a number of threads. -/
theorem total_toNat (P : τ → Bool) (pool : List τ) :
    total (fun a => (P a).toNat) pool = pool.countP P := by
  induction pool with
  | nil => rfl
  | cons a pool ih =>
      rw [total_cons, ih, List.countP_cons]
      cases P a with
      | true =>
          show (1 : Int) + _ = _
          simp only [if_true]
          omega
      | false => simp

/-- The total of a pool in which every thread stands for others. -/
theorem total_flatMap {τ' : Type v} (wt : τ' → Nat) (f : τ → List τ') (pool : List τ) :
    total wt (pool.flatMap f) = total (fun a => ((f a).map wt).sum) pool := by
  induction pool with
  | nil => rfl
  | cons a pool ih =>
      rw [List.flatMap_cons, total_append, total_cons, ih]
      rfl

/-- A pool whose total weight is zero has no thread of positive weight. -/
private theorem weight_eq_zero_of_total (wt : τ → Nat) {a : τ} {pool : List τ}
    (h : a ∈ pool) (h0 : total wt pool = 0) : wt a = 0 := by
  have := weight_le_total wt h
  omega

/-! ## Proof outlines -/

/-- A proof outline: an invariant of the shared state, an assertion for every
local state, and ledgers tying integers of the shared state to the threads. -/
structure Outline (σ : Type u) (τ : Type v) (ι : Type w) where
  shared : σ → Prop
  loc : σ → τ → Prop
  val : ι → σ → Int
  wt : ι → τ → Nat

/-- What the outline says of a configuration. -/
structure Outline.Holds (o : Outline σ τ ι) (c : Conf σ τ) : Prop where
  shared : o.shared c.shared
  loc : ∀ a ∈ c.pool, o.loc c.shared a
  ledger : ∀ i, o.val i c.shared = total (o.wt i) c.pool

/-- What a step of `a` has to show for itself: the invariant, the assertions of the threads
that it leaves, and the ledgers. -/
structure Outline.Keeps (o : Outline σ τ ι) (s : σ) (a : τ) (s' : σ) (bs : List τ) : Prop where
  inv : o.shared s'
  loc : ∀ b ∈ bs, o.loc s' b
  ledger : ∀ i, o.val i s' + o.wt i a = o.val i s + total (o.wt i) bs

/-- The step leaves one thread. -/
theorem Outline.keeps_one {o : Outline σ τ ι} {s s' : σ} {a b : τ} (hinv : o.shared s')
    (hloc : o.loc s' b) (hledger : ∀ i, o.val i s' + o.wt i a = o.val i s + o.wt i b) :
    o.Keeps s a s' [b] := by
  refine ⟨hinv, List.forall_mem_singleton.mpr hloc, fun i => ?_⟩
  rw [hledger i, total_cons, total_nil, Int.add_zero]

/-- The step leaves none. -/
theorem Outline.keeps_end {o : Outline σ τ ι} {s s' : σ} {a : τ} (hinv : o.shared s')
    (hledger : ∀ i, o.val i s' + o.wt i a = o.val i s) : o.Keeps s a s' [] := by
  refine ⟨hinv, List.forall_mem_nil _, fun i => ?_⟩
  rw [hledger i, total_nil, Int.add_zero]

theorem Outline.keeps_of_eq {o : Outline σ τ ι} {s s' : σ} {a : τ} {bs : List τ}
    {out : σ × List τ} (h : (s', bs) = out) (hk : o.Keeps s a out.1 out.2) :
    o.Keeps s a s' bs := by
  subst h
  exact hk

/-- The ledgers bound the weights of a thread. -/
def Outline.Booked (o : Outline σ τ ι) (s : σ) (a : τ) : Prop :=
  ∀ i, (o.wt i a : Int) ≤ o.val i s

/-- The local proof obligations of an outline.  `own` is about the thread that
steps, `other` is its interference with a second thread of the pool; both may
use what the ledgers say of the threads involved. -/
structure Outline.Valid (o : Outline σ τ ι) (p : Prog σ τ) : Prop where
  entry : ∀ s a, o.shared s → p.entry s a = true → o.loc s a ∧ ∀ i, o.wt i a = 0
  own : ∀ s a s' bs, o.shared s → o.loc s a → o.Booked s a → (s', bs) ∈ p.step s a →
    o.Keeps s a s' bs
  other : ∀ s a b s' bs, o.shared s → o.loc s a → o.loc s b →
    (∀ i, (o.wt i a : Int) + o.wt i b ≤ o.val i s) →
    (s', bs) ∈ p.step s a → o.loc s' b

/-- A ledger bounds the weight of every thread of the pool. -/
theorem Outline.Holds.weight_le {o : Outline σ τ ι} {c : Conf σ τ} (h : o.Holds c)
    {a : τ} (ha : a ∈ c.pool) (i : ι) : (o.wt i a : Int) ≤ o.val i c.shared := by
  rw [h.ledger i]
  exact weight_le_total (o.wt i) ha

/-- A ledger bounds the joint weight of two different threads of the pool. -/
theorem Outline.Holds.weight_pair_le {o : Outline σ τ ι} {c : Conf σ τ} (h : o.Holds c)
    {l r : List τ} {a b : τ} (hpool : c.pool = l ++ a :: r) (hb : b ∈ l ∨ b ∈ r) (i : ι) :
    (o.wt i a : Int) + o.wt i b ≤ o.val i c.shared := by
  rw [h.ledger i, hpool, total_append, total_cons]
  have hl := total_nonneg (o.wt i) l
  have hr := total_nonneg (o.wt i) r
  rcases hb with hb | hb
  · have := weight_le_total (o.wt i) hb
    omega
  · have := weight_le_total (o.wt i) hb
    omega

/-- Ledgers never go below zero. -/
theorem Outline.Holds.val_nonneg {o : Outline σ τ ι} {c : Conf σ τ} (h : o.Holds c)
    (i : ι) : 0 ≤ o.val i c.shared := by
  rw [h.ledger i]
  exact total_nonneg _ _

/-- When a ledger reads zero, no thread of the pool has weight in it. -/
theorem Outline.Holds.weight_eq_zero {o : Outline σ τ ι} {c : Conf σ τ} (h : o.Holds c)
    {a : τ} (ha : a ∈ c.pool) {i : ι} (h0 : o.val i c.shared = 0) : o.wt i a = 0 :=
  weight_eq_zero_of_total (o.wt i) ha ((h.ledger i).symm.trans h0)

/-- The same obligations, for a program of whose threads something is known already: `K`
holds of every thread that takes a step. -/
structure Outline.ValidGiven (o : Outline σ τ ι) (p : Prog σ τ) (K : σ → τ → Prop) : Prop where
  entry : ∀ s a, o.shared s → p.entry s a = true → o.loc s a ∧ ∀ i, o.wt i a = 0
  own : ∀ s a s' bs, K s a → o.shared s → o.loc s a → o.Booked s a → (s', bs) ∈ p.step s a →
    o.Keeps s a s' bs
  other : ∀ s a b s' bs, K s a → o.shared s → o.loc s a → o.loc s b →
    (∀ i, (o.wt i a : Int) + o.wt i b ≤ o.val i s) →
    (s', bs) ∈ p.step s a → o.loc s' b

theorem Outline.Valid.given {o : Outline σ τ ι} {p : Prog σ τ} (hv : o.Valid p) :
    o.ValidGiven p (fun _ _ => True) where
  entry := hv.entry
  own s a s' bs _ := hv.own s a s' bs
  other s a b s' bs _ := hv.other s a b s' bs

/-- **Step lemma.**  An outline that is valid given `K` survives one move, if `K` holds of
the threads. -/
theorem Outline.ValidGiven.holds_exec {o : Outline σ τ ι} {p : Prog σ τ} {K : σ → τ → Prop}
    (hv : o.ValidGiven p K) {c c' : Conf σ τ} {m : Move τ} (hK : ∀ a ∈ c.pool, K c.shared a)
    (hc : o.Holds c) (hm : p.exec c m = some c') : o.Holds c' := by
  rcases exec_cases hm with ⟨a, hentry, rfl⟩ | ⟨l, a, r, s', bs, hpool, hstep, rfl⟩
  · obtain ⟨hloc, hwt⟩ := hv.entry c.shared a hc.shared hentry
    refine ⟨hc.shared, ?_, ?_⟩
    · intro b hb
      rcases List.mem_append.mp hb with hb | hb
      · exact hc.loc b hb
      · rw [List.mem_singleton.mp hb]
        exact hloc
    · intro i
      simp only [total_append, total_cons, total_nil, hwt i]
      simpa using hc.ledger i
  · have hmem : a ∈ c.pool := by rw [hpool]; simp
    obtain ⟨hshared, hnew, hledger⟩ := hv.own c.shared a s' bs (hK a hmem)
      hc.shared (hc.loc a hmem) (hc.weight_le hmem) hstep
    refine ⟨hshared, ?_, ?_⟩
    · intro b hb
      have hrest : b ∈ l ∨ b ∈ r → o.loc s' b := by
        intro hlr
        have hbmem : b ∈ c.pool := by
          rw [hpool]
          rcases hlr with h | h <;> simp [h]
        exact hv.other c.shared a b s' bs (hK a hmem) hc.shared (hc.loc a hmem)
          (hc.loc b hbmem) (hc.weight_pair_le hpool hlr) hstep
      rcases List.mem_append.mp hb with hb | hb
      · rcases List.mem_append.mp hb with hb | hb
        · exact hrest (Or.inl hb)
        · exact hnew b hb
      · exact hrest (Or.inr hb)
    · intro i
      have hold := hc.ledger i
      have hown := hledger i
      rw [hpool, total_append, total_cons] at hold
      simp only [total_append]
      omega

/-- A valid outline survives one move. -/
theorem Outline.Valid.holds_exec {o : Outline σ τ ι} {p : Prog σ τ} (hv : o.Valid p)
    {c c' : Conf σ τ} {m : Move τ} (hc : o.Holds c) (hm : p.exec c m = some c') : o.Holds c' :=
  hv.given.holds_exec (fun _ _ => True.intro) hc hm

/-- **Run lemma.**  A valid outline that holds initially holds in every
reachable configuration. -/
theorem Outline.Valid.holds_run {o : Outline σ τ ι} {p : Prog σ τ} (hv : o.Valid p)
    {c₀ c : Conf σ τ} (h0 : o.Holds c₀) (h : p.Reaches c₀ c) : o.Holds c :=
  h.induct o.Holds h0 (fun _ _ _ hc hm => hv.holds_exec hc hm)

/-- **Run lemma.**  The same for an outline that is valid given `K`, when `K` holds of the
threads of every reachable configuration. -/
theorem Outline.ValidGiven.holds_run {o : Outline σ τ ι} {p : Prog σ τ} {K : σ → τ → Prop}
    (hv : o.ValidGiven p K) {c₀ c : Conf σ τ}
    (hK : ∀ d, p.Reaches c₀ d → ∀ a ∈ d.pool, K d.shared a) (h0 : o.Holds c₀)
    (h : p.Reaches c₀ c) : o.Holds c := by
  have hboth : p.Reaches c₀ c ∧ o.Holds c := by
    refine h.induct (fun d => p.Reaches c₀ d ∧ o.Holds d) ⟨⟨[], rfl⟩, h0⟩ ?_
    rintro d d' m ⟨hreach, hd⟩ hm
    exact ⟨hreach.snoc hm, hv.holds_exec (hK d hreach) hd hm⟩
  exact hboth.2

/-! ## Simulation -/

/-- The same configuration up to the order of the pool. -/
def Conf.Equiv (c d : Conf σ τ) : Prop := c.shared = d.shared ∧ c.pool.Perm d.pool

theorem Conf.Equiv.refl (c : Conf σ τ) : c.Equiv c := ⟨rfl, List.Perm.refl _⟩

theorem Conf.Equiv.trans {c d e : Conf σ τ} (h : c.Equiv d) (h' : d.Equiv e) : c.Equiv e :=
  ⟨h.1.trans h'.1, h.2.trans h'.2⟩

private theorem perm_to_front (l m r : List τ) : (l ++ m ++ r).Perm (m ++ (l ++ r)) := by
  rw [← List.append_assoc]
  exact List.perm_append_comm.append_right r

/-- A thread anywhere in the pool may take any outcome of its step. -/
theorem exec_fire {p : Prog σ τ} {s s' : σ} {a : τ} {bs : List τ} (l r : List τ)
    (h : (s', bs) ∈ p.step s a) :
    ∃ m, p.exec ⟨s, l ++ a :: r⟩ m = some ⟨s', l ++ bs ++ r⟩ := by
  obtain ⟨j, hj⟩ := List.mem_iff_getElem?.mp h
  exact ⟨.fire l.length j, exec_fire_iff.mpr ⟨a, (s', bs), by simp, hj, by simp⟩⟩

/-- The order of the pool does not matter for what can happen next. -/
theorem exec_equiv {p : Prog σ τ} {c c' d : Conf σ τ} {m : Move τ} (h : p.exec c m = some c')
    (he : c.Equiv d) : ∃ m' d', p.exec d m' = some d' ∧ c'.Equiv d' := by
  obtain ⟨hs, hp⟩ := he
  rcases exec_cases h with ⟨a, hentry, rfl⟩ | ⟨l, a, r, s', bs, hpool, hstep, rfl⟩
  · refine ⟨.start a, ⟨d.shared, d.pool ++ [a]⟩, ?_, hs, hp.append_right _⟩
    simp only [Prog.exec, ← hs, hentry, if_true]
  · have hmem : a ∈ d.pool := hp.subset (by rw [hpool]; simp)
    obtain ⟨l', r', hpool'⟩ := List.append_of_mem hmem
    rw [hs] at hstep
    obtain ⟨m', hm'⟩ := exec_fire l' r' hstep
    refine ⟨m', ⟨s', l' ++ bs ++ r'⟩, ?_, rfl, ?_⟩
    · rw [show d = ⟨d.shared, l' ++ a :: r'⟩ by rw [← hpool']]
      exact hm'
    · rw [hpool, hpool'] at hp
      have hrest : (l ++ r).Perm (l' ++ r') :=
        (List.perm_middle.symm.trans (hp.trans List.perm_middle)).cons_inv
      exact (perm_to_front l bs r).trans
        ((hrest.append_left bs).trans (perm_to_front l' bs r').symm)

/-- An outline does not look at the order of the pool. -/
theorem Outline.Holds.of_equiv {o : Outline σ τ ι} {c d : Conf σ τ} (h : o.Holds c)
    (he : c.Equiv d) : o.Holds d := by
  obtain ⟨hs, hp⟩ := he
  refine ⟨hs ▸ h.shared, fun a ha => hs ▸ h.loc a (hp.symm.subset ha), fun i => ?_⟩
  rw [← hs, h.ledger i]
  exact congrArg Nat.cast (hp.map (o.wt i)).sum_eq

/-- Reachable up to the order of the pool. -/
def Prog.Leads (p : Prog σ τ) (c c' : Conf σ τ) : Prop := ∃ d, p.Reaches c d ∧ d.Equiv c'

theorem Prog.Leads.refl (p : Prog σ τ) (c : Conf σ τ) : p.Leads c c := ⟨c, ⟨[], rfl⟩, .refl c⟩

theorem Prog.Leads.of_equiv {p : Prog σ τ} {c c' : Conf σ τ} (h : c.Equiv c') : p.Leads c c' :=
  ⟨c, ⟨[], rfl⟩, h⟩

theorem Prog.Leads.of_exec {p : Prog σ τ} {c c' : Conf σ τ} {m : Move τ}
    (h : p.exec c m = some c') : p.Leads c c' :=
  ⟨c', ⟨[m], by simp [Prog.run, h]⟩, .refl c'⟩

theorem Prog.Leads.snoc {p : Prog σ τ} {c₀ c c' : Conf σ τ} {m : Move τ} (h : p.Leads c₀ c)
    (hm : p.exec c m = some c') : p.Leads c₀ c' := by
  obtain ⟨d, hd, hs, hp⟩ := h
  obtain ⟨m', d', hm', he⟩ := exec_equiv hm ⟨hs.symm, hp.symm⟩
  exact ⟨d', hd.snoc hm', he.1.symm, he.2.symm⟩

theorem Prog.Leads.trans {p : Prog σ τ} {c₀ c c' : Conf σ τ} (h : p.Leads c₀ c)
    (h' : p.Leads c c') : p.Leads c₀ c' := by
  obtain ⟨d, hd, he⟩ := h'
  have hc : p.Leads c₀ d := hd.induct (p.Leads c₀) h (fun _ _ _ hc hm => hc.snoc hm)
  obtain ⟨e, hreach, he'⟩ := hc
  exact ⟨e, hreach, he'.trans he⟩

/-- A thread of the pool takes a step. -/
theorem Prog.Reaches.fire {p : Prog σ τ} {c : Conf σ τ} {s' : σ} {a : τ} {bs : List τ}
    (ha : a ∈ c.pool) (h : (s', bs) ∈ p.step c.shared a) :
    ∃ l r, p.Reaches c ⟨s', l ++ bs ++ r⟩ := by
  obtain ⟨l, r, hpool⟩ := List.append_of_mem ha
  obtain ⟨m, hm⟩ := exec_fire l r h
  refine ⟨l, r, [m], ?_⟩
  rw [← hpool] at hm
  simp only [Prog.run, hm]

/-- A thread takes a step. -/
theorem Prog.Leads.fire {p : Prog σ τ} {s s' : σ} {a : τ} {bs : List τ} (pool : List τ)
    (h : (s', bs) ∈ p.step s a) : p.Leads ⟨s, a :: pool⟩ ⟨s', bs ++ pool⟩ := by
  obtain ⟨m, hm⟩ := exec_fire [] pool h
  exact .of_exec hm

/-- A thread is started. -/
theorem Prog.Leads.start {p : Prog σ τ} {s : σ} {a : τ} (pool : List τ)
    (h : p.entry s a = true) : p.Leads ⟨s, pool⟩ ⟨s, pool ++ [a]⟩ := by
  have hm : p.exec ⟨s, pool⟩ (.start a) = some ⟨s, pool ++ [a]⟩ := by
    simp [Prog.exec, h]
  exact .of_exec hm

/-- A thread is started and takes its first step. -/
theorem Prog.Leads.spawn {p : Prog σ τ} {s s' : σ} {a : τ} {bs : List τ} (pool : List τ)
    (hentry : p.entry s a = true) (h : (s', bs) ∈ p.step s a) :
    p.Leads ⟨s, pool⟩ ⟨s', bs ++ pool⟩ := by
  have hfront : (Conf.mk s (pool ++ [a])).Equiv ⟨s, a :: pool⟩ :=
    ⟨rfl, List.perm_append_singleton a pool⟩
  exact (Prog.Leads.start pool hentry).trans ((Prog.Leads.of_equiv hfront).trans (.fire pool h))

variable {σ' : Type u} {τ' : Type v}

/-- The outcomes of a step of a program below, with the state and the threads of the program
above. -/
def liftOutcomes (f : σ → List τ → σ') (g : τ → τ')
    (outs : List (σ × List τ)) : List (σ' × List τ') :=
  outs.map fun out => (f out.1 out.2, out.2.map g)

theorem mem_liftOutcomes {f : σ → List τ → σ'} {g : τ → τ'}
    {outs : List (σ × List τ)} {s' : σ'} {bs : List τ'} (h : (s', bs) ∈ liftOutcomes f g outs) :
    ∃ x xs, (x, xs) ∈ outs ∧ s' = f x xs ∧ bs = xs.map g := by
  obtain ⟨⟨x, xs⟩, hmem, heq⟩ := List.mem_map.mp h
  obtain ⟨hs, hbs⟩ := Prod.ext_iff.mp heq
  exact ⟨x, xs, hmem, hs.symm, hbs.symm⟩

/-- The threads below are those that were lifted. -/
theorem flatMap_map_below {g : τ → τ'} {below : τ' → List τ} {bs : List τ}
    (h : ∀ b ∈ bs, below (g b) = [b]) : (bs.map g).flatMap below = bs := by
  rw [List.flatMap_map]
  induction bs with
  | nil => rfl
  | cons b bs ih =>
      rw [List.flatMap_cons, h b List.mem_cons_self, ih (List.forall_mem_of_forall_mem_cons h)]
      rfl

/-- A simulation of `p` by `q` for threads of a certain form: every thread that is started
has that form, and every step of one is a run of `q` on the abstraction of the shared state and
of the threads involved. -/
structure Refinement (p : Prog σ τ) (q : Prog σ' τ') (ok : τ → Prop) where
  shared : σ → σ'
  thread : τ → List τ'
  entry : ∀ s a pool, p.entry s a = true →
    ok a ∧ q.Leads ⟨shared s, pool⟩ ⟨shared s, pool ++ thread a⟩
  step : ∀ s a s' bs pool, ok a → (s', bs) ∈ p.step s a →
    (∀ b ∈ bs, ok b) ∧
      q.Leads ⟨shared s, thread a ++ pool⟩ ⟨shared s', bs.flatMap thread ++ pool⟩

section Refinement

variable {p : Prog σ τ} {q : Prog σ' τ'} {ok : τ → Prop} (R : Refinement p q ok)

/-- The abstraction of a configuration. -/
def Refinement.conf (c : Conf σ τ) : Conf σ' τ' := ⟨R.shared c.shared, c.pool.flatMap R.thread⟩

theorem Refinement.exec {c c' : Conf σ τ} {m : Move τ} (hok : ∀ a ∈ c.pool, ok a)
    (hm : p.exec c m = some c') :
    (∀ a ∈ c'.pool, ok a) ∧ q.Leads (R.conf c) (R.conf c') := by
  rcases exec_cases hm with ⟨a, hentry, rfl⟩ | ⟨l, a, r, s', bs, hpool, hstep, rfl⟩
  · obtain ⟨hnew, hleads⟩ := R.entry c.shared a (c.pool.flatMap R.thread) hentry
    refine ⟨fun b hb => ?_, by simpa [Refinement.conf] using hleads⟩
    rcases List.mem_append.mp hb with hb | hb
    · exact hok b hb
    · rw [List.mem_singleton.mp hb]
      exact hnew
  · have hmem : a ∈ c.pool := by rw [hpool]; simp
    obtain ⟨hnew, hrun⟩ := R.step c.shared a s' bs (l.flatMap R.thread ++ r.flatMap R.thread)
      (hok a hmem) hstep
    refine ⟨fun b hb => ?_, ?_⟩
    · have hold : b ∈ l ∨ b ∈ r → ok b := by
        intro hlr
        refine hok b ?_
        rw [hpool]
        rcases hlr with h | h <;> simp [h]
      rcases List.mem_append.mp hb with hb | hb
      · rcases List.mem_append.mp hb with hb | hb
        · exact hold (Or.inl hb)
        · exact hnew b hb
      · exact hold (Or.inr hb)
    · have hbefore : (R.conf c).Equiv ⟨R.shared c.shared,
          R.thread a ++ (l.flatMap R.thread ++ r.flatMap R.thread)⟩ := by
        refine ⟨rfl, ?_⟩
        simp only [Refinement.conf, hpool, List.flatMap_append, List.flatMap_cons]
        rw [← List.append_assoc]
        exact perm_to_front _ _ _
      have hafter : Conf.Equiv ⟨R.shared s', bs.flatMap R.thread ++
          (l.flatMap R.thread ++ r.flatMap R.thread)⟩ (R.conf ⟨s', l ++ bs ++ r⟩) := by
        refine ⟨rfl, ?_⟩
        simp only [Refinement.conf, List.flatMap_append]
        exact (perm_to_front _ _ _).symm
      exact (Prog.Leads.of_equiv hbefore).trans (hrun.trans (.of_equiv hafter))

/-- **Refinement rule.**  The threads keep their form, and what `p` reaches, `q` reaches on the
abstraction. -/
theorem Refinement.reaches {c₀ c : Conf σ τ} (h0 : ∀ a ∈ c₀.pool, ok a) (h : p.Reaches c₀ c) :
    (∀ a ∈ c.pool, ok a) ∧ q.Leads (R.conf c₀) (R.conf c) := by
  refine h.induct (fun c => (∀ a ∈ c.pool, ok a) ∧ q.Leads (R.conf c₀) (R.conf c))
    ⟨h0, .refl q _⟩ ?_
  rintro c c' m ⟨hok, hleads⟩ hm
  obtain ⟨hok', hrun⟩ := R.exec hok hm
  exact ⟨hok', hleads.trans hrun⟩

/-- What an outline of `q` says of the threads behind a thread of `p`, whose form is known. -/
def Refinement.Knows (o : Outline σ' τ' ι) (s : σ) (a : τ) : Prop :=
  ok a ∧ o.shared (R.shared s) ∧
    ∀ b ∈ R.thread a, o.loc (R.shared s) b ∧ ∀ i, (o.wt i b : Int) ≤ o.val i (R.shared s)

theorem Refinement.holds {o : Outline σ' τ' ι} (hv : o.Valid q) {c₀ c : Conf σ τ}
    (hok : ∀ a ∈ c₀.pool, ok a) (h0 : o.Holds (R.conf c₀)) (h : p.Reaches c₀ c) :
    o.Holds (R.conf c) := by
  obtain ⟨-, d, hreach, hequiv⟩ := R.reaches hok h
  exact (hv.holds_run h0 hreach).of_equiv hequiv

theorem Refinement.knows {o : Outline σ' τ' ι} (hv : o.Valid q) {c₀ : Conf σ τ}
    (hok : ∀ a ∈ c₀.pool, ok a) (h0 : o.Holds (R.conf c₀)) :
    ∀ c, p.Reaches c₀ c → ∀ a ∈ c.pool, R.Knows o c.shared a := by
  intro c h a ha
  have hholds := R.holds hv hok h0 h
  refine ⟨(R.reaches hok h).1 a ha, hholds.shared, fun b hb => ?_⟩
  have hmem : b ∈ (R.conf c).pool := List.mem_flatMap.mpr ⟨a, ha, hb⟩
  exact ⟨hholds.loc b hmem, hholds.weight_le hmem⟩

end Refinement

/-- A simulation of `p` by `q`: every step of `p` is a run of `q` on the
abstraction of the shared state and of the threads involved. -/
structure Simulation (p : Prog σ τ) (q : Prog σ' τ') where
  shared : σ → σ'
  thread : τ → List τ'
  entry : ∀ s a pool, p.entry s a = true →
    q.Leads ⟨shared s, pool⟩ ⟨shared s, pool ++ thread a⟩
  step : ∀ s a s' bs pool, (s', bs) ∈ p.step s a →
    q.Leads ⟨shared s, thread a ++ pool⟩ ⟨shared s', bs.flatMap thread ++ pool⟩

/-- A simulation looks at threads of any form. -/
def Simulation.refinement {p : Prog σ τ} {q : Prog σ' τ'} (S : Simulation p q) :
    Refinement p q (fun _ => True) where
  shared := S.shared
  thread := S.thread
  entry s a pool h := ⟨trivial, S.entry s a pool h⟩
  step s a s' bs pool _ h := ⟨fun _ _ => trivial, S.step s a s' bs pool h⟩

/-- The abstraction of a configuration. -/
def Simulation.conf {p : Prog σ τ} {q : Prog σ' τ'} (S : Simulation p q) (c : Conf σ τ) :
    Conf σ' τ' := ⟨S.shared c.shared, c.pool.flatMap S.thread⟩

/-- **Simulation rule.**  What `p` reaches, `q` reaches on the abstraction. -/
theorem Simulation.reaches {p : Prog σ τ} {q : Prog σ' τ'} (S : Simulation p q)
    {c₀ c : Conf σ τ} (h : p.Reaches c₀ c) : q.Leads (S.conf c₀) (S.conf c) :=
  (S.refinement.reaches (fun _ _ => trivial) h).2

/-- What an outline of `q` says of the threads behind a thread of `p`. -/
def Simulation.Knows {p : Prog σ τ} {q : Prog σ' τ'} (S : Simulation p q)
    (o : Outline σ' τ' ι) (s : σ) (a : τ) : Prop :=
  o.shared (S.shared s) ∧
    ∀ b ∈ S.thread a, o.loc (S.shared s) b ∧ ∀ i, (o.wt i b : Int) ≤ o.val i (S.shared s)

theorem Simulation.holds {p : Prog σ τ} {q : Prog σ' τ'} (S : Simulation p q)
    {o : Outline σ' τ' ι} (hv : o.Valid q) {c₀ c : Conf σ τ} (h0 : o.Holds (S.conf c₀))
    (h : p.Reaches c₀ c) : o.Holds (S.conf c) :=
  S.refinement.holds hv (fun _ _ => trivial) h0 h

/-- What is known of the threads of `p` by a valid outline of `q`. -/
theorem Simulation.knows {p : Prog σ τ} {q : Prog σ' τ'} (S : Simulation p q)
    {o : Outline σ' τ' ι} (hv : o.Valid q) {c₀ : Conf σ τ} (h0 : o.Holds (S.conf c₀)) :
    ∀ c, p.Reaches c₀ c → ∀ a ∈ c.pool, S.Knows o c.shared a := by
  intro c h a ha
  exact (S.refinement.knows hv (fun _ _ => trivial) h0 c h a ha).2

end Getty.Verified.ThreadPool
