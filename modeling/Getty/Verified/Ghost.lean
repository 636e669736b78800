import Getty.Verified.ThreadPool

/-!
# Ghosts, and outlines on top of outlines

A thread pool can carry ghost state: a value that every step updates and that no step reads.
The program with the ghosts has the same runs.  An outline of the program is one of the
program with ghosts, and a second outline, which may speak of the ghosts, can be proved on
top of it: its obligations may use everything that the first one says of the threads
involved.

## Main results

* `Prog.Reaches.ghost`, `Prog.Reaches.erase` — the runs are the same.
* `census_eq` — ghosts that count threads.
* `Outline.ValidOver.holds_run` — the outline on top holds along every run.
-/

namespace Getty.Verified.ThreadPool

universe u v w w'

variable {σ γ : Type u} {τ : Type v} {ι : Type w} {κ : Type w'}

/-! ## Ghosts -/

/-- The program with a ghost that is updated by the state before the step, the thread, and
the outcome. -/
def Prog.withGhost (p : Prog σ τ) (upd : σ → τ → σ × List τ → γ → γ) : Prog (σ × γ) τ where
  entry s a := p.entry s.1 a
  step s a := (p.step s.1 a).map fun out => ((out.1, upd s.1 a out s.2), out.2)

variable {p : Prog σ τ} {upd : σ → τ → σ × List τ → γ → γ}

theorem mem_step_withGhost {x x' : σ × γ} {a : τ} {bs : List τ}
    (h : (x', bs) ∈ (p.withGhost upd).step x a) :
    (x'.1, bs) ∈ p.step x.1 a ∧ x'.2 = upd x.1 a (x'.1, bs) x.2 := by
  obtain ⟨out, hout, heq⟩ := List.mem_map.mp h
  cases heq
  exact ⟨hout, rfl⟩

private theorem exec_withGhost {c d : Conf σ τ} {m : Move τ} (h : p.exec c m = some d) (g : γ) :
    ∃ g', (p.withGhost upd).exec ⟨(c.shared, g), c.pool⟩ m = some ⟨(d.shared, g'), d.pool⟩ := by
  cases m with
  | start a =>
      obtain ⟨hentry, rfl⟩ := exec_start_iff.mp h
      exact ⟨g, exec_start_iff.mpr ⟨hentry, rfl⟩⟩
  | fire i j =>
      obtain ⟨a, out, hi, hj, rfl⟩ := exec_fire_iff.mp h
      refine ⟨upd c.shared a out g, exec_fire_iff.mpr ⟨a, ((out.1, _), out.2), hi, ?_, rfl⟩⟩
      simp [Prog.withGhost, hj]

private theorem exec_of_withGhost {c d : Conf (σ × γ) τ} {m : Move τ}
    (h : (p.withGhost upd).exec c m = some d) :
    p.exec ⟨c.shared.1, c.pool⟩ m = some ⟨d.shared.1, d.pool⟩ := by
  cases m with
  | start a =>
      obtain ⟨hentry, rfl⟩ := exec_start_iff.mp h
      exact exec_start_iff.mpr ⟨hentry, rfl⟩
  | fire i j =>
      obtain ⟨a, out, hi, hj, rfl⟩ := exec_fire_iff.mp h
      simp only [Prog.withGhost, List.getElem?_map, Option.map_eq_some_iff] at hj
      obtain ⟨below, hj, rfl⟩ := hj
      exact exec_fire_iff.mpr ⟨a, below, hi, hj, rfl⟩

/-- **Every run is one with ghosts.** -/
theorem Prog.Reaches.ghost {c d : Conf σ τ} (h : p.Reaches c d) (g : γ) :
    ∃ g', (p.withGhost upd).Reaches ⟨(c.shared, g), c.pool⟩ ⟨(d.shared, g'), d.pool⟩ := by
  refine h.induct
    (fun d => ∃ g', (p.withGhost upd).Reaches ⟨(c.shared, g), c.pool⟩ ⟨(d.shared, g'), d.pool⟩)
    ⟨g, [], rfl⟩ fun d d' m hd hm => ?_
  obtain ⟨g', hreach⟩ := hd
  obtain ⟨g'', hexec⟩ := exec_withGhost hm g'
  exact ⟨g'', hreach.snoc hexec⟩

/-- **And the ghosts can be erased.** -/
theorem Prog.Reaches.erase {c d : Conf (σ × γ) τ} (h : (p.withGhost upd).Reaches c d) :
    p.Reaches ⟨c.shared.1, c.pool⟩ ⟨d.shared.1, d.pool⟩ := by
  refine h.induct (fun d => p.Reaches ⟨c.shared.1, c.pool⟩ ⟨d.shared.1, d.pool⟩) ⟨[], rfl⟩
    fun d d' m hd hm => hd.snoc (exec_of_withGhost hm)

/-! ## Counting threads -/

/-- The numbers of threads with the properties `P i`, after a step of `a` into `bs`. -/
def census (P : κ → τ → Bool) (a : τ) (bs : List τ) (n : κ → Nat) (i : κ) : Nat :=
  n i + bs.countP (P i) - (P i a).toNat

theorem census_eq {P : κ → τ → Bool} {a : τ} {n : κ → Nat} {i : κ}
    (h : ((P i a).toNat : Int) ≤ n i) (bs : List τ) :
    census P a bs n i + (P i a).toNat = n i + bs.countP (P i) := by
  unfold census
  omega

/-! ## An outline on top of another one -/

/-- The obligations of an outline of a program with ghosts, where another outline, `base`, is
known to hold without them, and `K` of every thread that takes a step. -/
structure Outline.ValidOver (o : Outline (σ × γ) τ κ) (base : Outline σ τ ι) (K : σ → τ → Prop)
    (p : Prog (σ × γ) τ) : Prop where
  entry : ∀ s a, o.shared s → p.entry s a = true → o.loc s a ∧ ∀ i, o.wt i a = 0
  own : ∀ s a s' bs, K s.1 a → base.shared s.1 → base.loc s.1 a →
    base.Booked s.1 a → o.shared s → o.loc s a → o.Booked s a → (s', bs) ∈ p.step s a →
    o.Keeps s a s' bs
  other : ∀ s a b s' bs, base.shared s.1 → base.loc s.1 a → base.loc s.1 b →
    (∀ i, (base.wt i a : Int) + base.wt i b ≤ base.val i s.1) →
    o.shared s → o.loc s a → o.loc s b → (∀ i, (o.wt i a : Int) + o.wt i b ≤ o.val i s) →
    (s', bs) ∈ p.step s a → o.loc s' b

/-- Both outlines at once. -/
def Outline.over (o : Outline (σ × γ) τ κ) (base : Outline σ τ ι) : Outline (σ × γ) τ (ι ⊕ κ) where
  shared s := base.shared s.1 ∧ o.shared s
  loc s a := base.loc s.1 a ∧ o.loc s a
  val
    | .inl i, s => base.val i s.1
    | .inr i, s => o.val i s
  wt
    | .inl i, a => base.wt i a
    | .inr i, a => o.wt i a

section Over

variable {o : Outline (σ × γ) τ κ} {base : Outline σ τ ι} {K : σ → τ → Prop}

theorem Outline.ValidOver.validGiven (hbase : base.Valid p)
    (ho : o.ValidOver base K (p.withGhost upd)) :
    (o.over base).ValidGiven (p.withGhost upd) (fun s a => K s.1 a) where
  entry s a hs h := by
    obtain ⟨hbl, hbw⟩ := hbase.entry s.1 a hs.1 h
    obtain ⟨hol, how⟩ := ho.entry s a hs.2 h
    refine ⟨⟨hbl, hol⟩, fun i => ?_⟩
    cases i with
    | inl i => exact hbw i
    | inr i => exact how i
  own s a s' bs hK hs hl hb h := by
    obtain ⟨hbs, hbl, hbv⟩ := hbase.own s.1 a s'.1 bs hs.1 hl.1 (fun i => hb (.inl i))
      (mem_step_withGhost h).1
    obtain ⟨hos, hol, hov⟩ := ho.own s a s' bs hK hs.1 hl.1 (fun i => hb (.inl i)) hs.2 hl.2
      (fun i => hb (.inr i)) h
    refine ⟨⟨hbs, hos⟩, fun b hb => ⟨hbl b hb, hol b hb⟩, fun i => ?_⟩
    cases i with
    | inl i => exact hbv i
    | inr i => exact hov i
  other s a b s' bs _ hs ha hb hpair h :=
    ⟨hbase.other s.1 a b s'.1 bs hs.1 ha.1 hb.1 (fun i => hpair (.inl i)) (mem_step_withGhost h).1,
      ho.other s a b s' bs hs.1 ha.1 hb.1 (fun i => hpair (.inl i)) hs.2 ha.2 hb.2
        (fun i => hpair (.inr i)) h⟩

/-- **Invariant rule.**  The outline on top holds along every run. -/
theorem Outline.ValidOver.holds_run (hbase : base.Valid p)
    (ho : o.ValidOver base K (p.withGhost upd)) {c d : Conf (σ × γ) τ}
    (hK : ∀ e, p.Reaches ⟨c.shared.1, c.pool⟩ e → ∀ a ∈ e.pool, K e.shared a)
    (hbc : base.Holds ⟨c.shared.1, c.pool⟩) (hoc : o.Holds c)
    (h : (p.withGhost upd).Reaches c d) : o.Holds d := by
  have hboth : (o.over base).Holds c := by
    refine ⟨⟨hbc.shared, hoc.shared⟩, fun a ha => ⟨hbc.loc a ha, hoc.loc a ha⟩, fun i => ?_⟩
    cases i with
    | inl i => exact hbc.ledger i
    | inr i => exact hoc.ledger i
  have hd := (ho.validGiven hbase).holds_run (fun e he => hK _ he.erase) hboth h
  exact ⟨hd.shared.2, fun a ha => (hd.loc a ha).2, fun i => hd.ledger (.inr i)⟩

end Over

end Getty.Verified.ThreadPool
