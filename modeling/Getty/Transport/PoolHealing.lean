import Getty.Transport.ClientPoolFlight
import Getty.Transport.PoolHealingInvariant

/-!
# The client refills its pool

Can a session be missing from the pool with nobody going to replace it?  The step lemmas of
`PoolHealingInvariant` answer for the thread that moves; here they are completed by the
assertions of all threads, which no other thread disturbs, and carried over whole runs.

The delicate place is the end of a pass.  `reConnect` leaves when `sessionNum` has counted
enough sessions, but a session can die right after it was counted, and the loop may look for
a pending trigger before that session's `stop` has got as far as `runReconnect`.  The count
is taken under the client's mutex, which `runReconnect` needs as well, so whoever was counted
and died is still on the way there.

There is one exception, and the code means it: a session whose peer has closed the connection
does not call `runReconnect`, so that a pool may stay short until the next trigger.

## Main results

* `outline_valid` — the invariant, on top of that of the pool.
* `short_pool_is_attended` — a pool with too few active sessions is being refilled, or a
  dying session is about to see to it, or the client has given up, or a peer has hung up.
-/

namespace Getty.Transport.ClientPool.Healing

open Getty.Verified.ThreadPool
open Getty.Transport.Reconnect (Options)
open Getty.Transport.SingleFlight (Flight)

section Acts

variable {o : Options} {x x' : Shared × Ghost} {a b : Thread} {bs : List Thread} {i : Nat}

/-! ## Ledgers -/

/-- The body of the first `once` is running. -/
def running (x : Sess) : Bool := decide (x.gen = 0 ∧ x.once = .running)

private theorem inBody_stop_of_ne {j : Nat} (hne : j ≠ i) (pc : StopPc) (k : Cont) :
    inBody i 0 (.stop j pc k) = false := by
  simp [inBody, hne]

/-- The `stop` of another session is not in the body, before the step and after. -/
theorem Acts.inBody_of_ne (h : Acts o x a x' bs) (hne : ∀ pc k, a ≠ .stop i pc k) :
    inBody i 0 a = false ∧ bs.countP (inBody i 0) = 0 := by
  by_cases hstop : ∃ j pc k, a = .stop j pc k
  · obtain ⟨j, pc, k, rfl⟩ := hstop
    have hji : j ≠ i := by
      rintro rfl
      exact hne pc k rfl
    refine ⟨inBody_stop_of_ne hji pc k, ?_⟩
    cases stopMove h.step with
    | skips | leaves => exact countP_plain plain_inBody (plain_afterStop _ j k)
    | calls g ch =>
        simp [countP_plain plain_inBody (plain_spawned ch), inBody_stop_of_ne hji]
    | _ => simp [inBody_stop_of_ne hji]
  · push Not at hstop
    refine ⟨?_, countP_plain plain_inBody (h.effect.threads hstop)⟩
    cases a with
    | stop j pc k => exact absurd rfl (hstop j pc k)
    | _ => rfl

/-- Only `stop` enters and leaves the body. -/
private theorem running_of_change {s : Shared} {y : Sess} (h : Change s a i y)
    (hdo : ∀ g k, a ≠ .stop i (.doOnce g) k) (hfin : ∀ g k, a ≠ .stop i (.finish g) k)
    (hclear : a = .clear i → Over (s.sess i)) : running y = running (s.sess i) := by
  cases h with
  | run g k hi ha => exact absurd ha (hdo g k)
  | finish g k hi ha => exact absurd ha (hfin g k)
  | gc k => simp [running]
  | clear hi ha =>
      have hover := hclear ha
      unfold running
      rw [decide_eq_decide]
      constructor
      · intro hy
        exact absurd hy.1 (Nat.succ_ne_zero _)
      · rintro ⟨hgen, honce⟩
        rw [hover hgen] at honce
        cases honce
  | _ => rfl

theorem Acts.running_eq (h : Acts o x a x' bs)
    (hdo : ∀ g k, a ≠ .stop i (.doOnce g) k) (hfin : ∀ g k, a ≠ .stop i (.finish g) k) :
    running (x'.1.sess i) = running (x.1.sess i) := by
  rcases h.effect.sess i with hc | ⟨hi, heq⟩
  · exact running_of_change hc hdo hfin h.clear_over
  · rw [heq, (h.healthy.unborn i (Nat.le_of_eq hi.symm)).1]

theorem Acts.body_eq (h : Acts o x a x' bs) :
    (running (x'.1.sess i)).toNat + (inBody i 0 a).toNat =
      (running (x.1.sess i)).toNat + bs.countP (inBody i 0) := by
  by_cases hstop : ∃ pc k, a = .stop i pc k
  · obtain ⟨pc, k, rfl⟩ := hstop
    have hbody := h.body (i := i)
    have hsame := h.running_eq (i := i)
    cases stopMove h.step with
    | reads =>
        rw [hsame (by simp) (by simp)]
        simp [inBody]
    | skips g hover hsess =>
        rw [countP_plain plain_inBody (plain_afterStop _ i k), hsess]
        rfl
    | enters g hg hfresh hsess =>
        subst hg
        rw [hsess]
        by_cases hgen : (x.1.sess i).gen = 0 <;> simp [running, inBody, hgen, hfresh]
    | leaves g s₁ hsess =>
        rw [countP_plain plain_inBody (plain_afterStop _ i k), hsess]
        cases g with
        | zero =>
            obtain ⟨hgen, honce⟩ := hbody (by simp [inBody])
            simp [running, inBody, hgen, honce, Sess.finishOnce]
        | succ g =>
            have hrun : running ((x.1.sess i).finishOnce (g + 1)) = running (x.1.sess i) := by
              unfold Sess.finishOnce
              split
              · next hgen => simp [running, hgen]
              · rfl
            rw [hrun]
            rfl
    | calls g ch =>
        rw [hsame (by simp) (by simp)]
        simp only [List.countP_cons, countP_plain plain_inBody (plain_spawned ch)]
        cases g <;> simp [inBody]
    | closes g | finds g | misses g | decides g | ignores g =>
        rw [hsame (by simp) (by simp)]
        cases g <;> simp [inBody]
  · push Not at hstop
    obtain ⟨ha, hbs⟩ := h.inBody_of_ne hstop
    rw [h.running_eq (fun g => hstop _) (fun g => hstop _), ha, hbs]
    rfl

theorem Acts.ledger' (h : Acts o x a x' bs) (l : Ledger) :
    (outline o).val l x' + (outline o).wt l a =
      (outline o).val l x + total ((outline o).wt l) bs := by
  cases l with
  | body i =>
      have heq := h.body_eq (i := i)
      simp only [outline, total_toNat]
      unfold running at heq
      omega
  | dying i =>
      have heq := h.dying_eq (i := i)
      simp only [outline, total_toNat]
      omega
  | deaf i =>
      have heq := h.deaf_eq (i := i)
      simp only [outline, total_toNat]
      omega

/-! ## The threads that go on -/

theorem at_connectReturn (k : Caller) (ok : Bool) : ∀ b ∈ connectReturn k ok, At o x b := by
  have hpos := o.attempts_pos
  cases k <;> cases ok <;> simp [connectReturn, At, hpos]

theorem at_spawned (ch : Option Nat) : ∀ b ∈ spawned ch, At o x b := by
  cases ch <;> simp [spawned, At]

private theorem at_afterStop {j : Nat} (s : Shared) (k : Cont) (hover : Over (x.1.sess j)) :
    ∀ b ∈ (afterStop s j k).2, At o x b := by
  cases k with
  | dropped k => exact at_connectReturn k false
  | _ => simp [afterStop, At, hover]

/-- Nothing is asserted of the attributes of a session whose first generation is over. -/
private theorem while_of_over {s : Shared} {P : Option Attrs → Prop} (h : Over (s.sess i)) :
    While s i P :=
  fun _ hgen honce => absurd (h hgen) honce

theorem Acts.while_own (h : Acts o x a x' bs) (hsess : x'.1.sess i = x.1.sess i)
    {P : Option Attrs → Prop} (hP : While x.1 i P) : While x'.1 i P := by
  intro hopen
  rw [hsess]
  exact hP (h.open_of hopen)

theorem visit_sess (s : Shared) (j : Nat) : (s.visit j).sess = s.sess := by
  unfold Shared.visit
  split <;> rfl

theorem Acts.deaf_own (h : Acts o x a x' bs) (hne : ∀ pc k, a ≠ .stop i pc k)
    (hzero : x.2.deaf i = 0) : x'.2.deaf i = 0 := by
  rcases h.deaf_le (i := i) with hle | ⟨k, ha, -⟩
  · omega
  · exact absurd ha (hne _ k)

theorem Acts.at_stop {j : Nat} {pc : StopPc} {k : Cont} (h : Acts o x (.stop j pc k) x' bs) :
    ∀ b ∈ bs, At o x' b := by
  have hgen : pc.generation ≤ (x'.1.sess j).gen :=
    Nat.le_trans h.loc (h.change h.base.1).gen_le
  cases stopMove h.step with
  | reads => simpa [At] using (h.change h.base.1).gen_le
  | skips g hover hsess =>
      refine at_afterStop _ k ?_
      rw [hsess]
      intro hzero
      have hle : g ≤ (x.1.sess j).gen := h.loc
      exact hover (by omega)
  | leaves g s₁ hsess =>
      refine at_afterStop _ k ?_
      intro hzero
      rw [hsess] at hzero ⊢
      have hle : g ≤ (x.1.sess j).gen := h.loc
      rw [finishOnce_gen] at hzero
      rw [finishOnce_once, if_pos (by omega)]
  | calls g ch =>
      intro b hb
      rcases List.mem_cons.mp hb with rfl | hb
      · exact hgen
      · exact at_spawned ch b hb
  | _ =>
      intro b hb
      rw [List.mem_singleton.mp hb]
      exact hgen

theorem Acts.at_connect {k : Caller} {j : Nat} {pc : ConnPc}
    (h : Acts o x (.connect k j pc) x' bs) : ∀ b ∈ bs, At o x' b := by
  have hstep : (x'.1, bs) ∈ connectStep o x.1 k j pc := h.step
  have hloc : ConnAttached x j pc := h.loc
  have hret := at_connectReturn (o := o) (x := x') k
  have hdeaf := h.deaf_own (i := j) (by simp)
  have hown : ∀ {s₁}, x'.1 = s₁ → s₁.sess j = x.1.sess j → While x.1 j Attached →
      While x'.1 j Attached := fun hx hsess => h.while_own (by rw [hx, hsess])
  cases pc with
  | newSession =>
      rcases mem_newSession hstep with hout | hout
      · obtain ⟨-, rfl⟩ := Prod.ext_iff.mp hout
        simp [At, ConnAttached]
      · obtain ⟨-, rfl⟩ := Prod.ext_iff.mp hout
        exact hret false
  | setClient =>
      obtain ⟨hx, rfl⟩ := Prod.ext_iff.mp (List.mem_singleton.mp hstep)
      refine List.forall_mem_singleton.mpr fun hopen hgen honce => ?_
      simp only at hx
      rw [hx, modSess_self] at hgen honce ⊢
      obtain ⟨a, ha⟩ := Option.isSome_iff_exists.mp (h.healthy.attrs j hgen honce)
      simp [Sess.setClient, Linked, ha]
  | setIgnore =>
      obtain ⟨hx, rfl⟩ := Prod.ext_iff.mp (List.mem_singleton.mp hstep)
      refine List.forall_mem_singleton.mpr fun hopen hgen honce => ?_
      simp only at hx
      have hold := h.open_of hopen
      rw [hx, modSess_self] at hgen honce ⊢
      obtain ⟨a, ha⟩ := Option.isSome_iff_exists.mp (h.healthy.attrs j hgen honce)
      have hlink := hloc hold hgen honce
      rw [ha] at hlink
      simpa [Sess.setIgnore, Attached, Linked, ha] using hlink
  | run =>
      simp only [connectStep] at hstep
      split at hstep <;> obtain ⟨hx, rfl⟩ := Prod.ext_iff.mp (List.mem_singleton.mp hstep) <;>
        exact List.forall_mem_singleton.mpr (hown hx rfl hloc)
  | check =>
      simp only [connectStep] at hstep
      split at hstep
      · obtain ⟨hx, rfl⟩ := Prod.ext_iff.mp (List.mem_singleton.mp hstep)
        exact List.forall_mem_singleton.mpr (hown hx rfl hloc)
      · cases hstep
  | onOpen =>
      rcases List.mem_pair.mp hstep with hout | hout
      · obtain ⟨hx, rfl⟩ := Prod.ext_iff.mp hout
        exact List.forall_mem_singleton.mpr (hown hx rfl hloc)
      · obtain ⟨-, rfl⟩ := Prod.ext_iff.mp hout
        exact List.forall_mem_singleton.mpr (Nat.zero_le _)
  | lock =>
      simp only [connectStep] at hstep
      split at hstep
      · cases hstep
      · obtain ⟨hx, rfl⟩ := Prod.ext_iff.mp (List.mem_singleton.mp hstep)
        exact List.forall_mem_singleton.mpr (hown hx rfl hloc)
  | pool =>
      simp only [connectStep] at hstep
      split at hstep
      · obtain ⟨-, rfl⟩ := Prod.ext_iff.mp (List.mem_singleton.mp hstep)
        exact List.forall_mem_singleton.mpr trivial
      · obtain ⟨hx, rfl⟩ := Prod.ext_iff.mp (List.mem_singleton.mp hstep)
        exact List.forall_mem_singleton.mpr (hown hx rfl hloc)
  | active =>
      simp only [connectStep] at hstep
      split at hstep
      · next hact =>
          obtain ⟨hx, rfl⟩ := Prod.ext_iff.mp (List.mem_singleton.mp hstep)
          -- an active session has not been through `stop`
          have hzero : x.2.deaf j = 0 := by
            by_contra hne
            rw [h.healthy.deafInactive j (Nat.pos_of_ne_zero hne)] at hact
            cases hact
          exact List.forall_mem_singleton.mpr
            ⟨hown hx rfl hloc, hdeaf hzero⟩
      · obtain ⟨-, rfl⟩ := Prod.ext_iff.mp (List.mem_singleton.mp hstep)
        exact List.forall_mem_singleton.mpr trivial
  | prune todo =>
      obtain ⟨hatt, hzero⟩ := hloc
      cases todo with
      | nil =>
          obtain ⟨hx, rfl⟩ := Prod.ext_iff.mp (List.mem_singleton.mp hstep)
          exact List.forall_mem_singleton.mpr
            ⟨hown hx rfl hatt, hdeaf hzero⟩
      | cons j₀ todo =>
          obtain ⟨j', -, hout⟩ := List.mem_map.mp hstep
          obtain ⟨hx, rfl⟩ := Prod.ext_iff.mp hout
          have hsess : (x.1.visit j').sess j = x.1.sess j := by rw [visit_sess]
          exact List.forall_mem_singleton.mpr ⟨hown hx.symm hsess hatt, hdeaf hzero⟩
  | addSession =>
      simp only [connectStep] at hstep
      split at hstep <;> obtain ⟨-, rfl⟩ := Prod.ext_iff.mp (List.mem_singleton.mp hstep) <;>
        exact List.forall_mem_singleton.mpr trivial
  | drop | dropIgnore =>
      obtain ⟨-, rfl⟩ := Prod.ext_iff.mp (List.mem_singleton.mp hstep)
      exact List.forall_mem_singleton.mpr trivial
  | unlock why =>
      cases why <;> obtain ⟨-, rfl⟩ := Prod.ext_iff.mp (List.mem_singleton.mp hstep)
      · exact List.forall_mem_singleton.mpr (Nat.zero_le _)
      · exact hret false
      · exact List.forall_mem_singleton.mpr (Nat.zero_le _)
  | unlockTrue =>
      obtain ⟨-, rfl⟩ := Prod.ext_iff.mp (List.mem_singleton.mp hstep)
      exact hret true

theorem Counted.visit {todo : List Nat} (h : Counted x todo) (j : Nat)
    (hx : x'.1 = x.1.visit j) (hdying : ∀ i, x.2.dying i ≤ x'.2.dying i)
    (hup : x.2.hungUp = true → x'.2.hungUp = true) : Counted x' (todo.erase j) := by
  rcases h with h | h
  · exact Or.inl (hup h)
  refine Or.inr fun i hi => ?_
  have hact : x'.1.active i = x.1.active i := by
    unfold Shared.active
    rw [hx, visit_sess]
  rw [hact]
  unfold Shared.visit at hx
  split at hx
  · next hj =>
      have hpool : x'.1.pool = x.1.pool := by rw [hx]; rfl
      rw [hpool] at hi ⊢
      by_cases hij : i = j
      · subst hij
        exact Or.inl hj
      · rw [List.count_erase_of_ne hij]
        rcases h i hi with hact | hd | hle
        · exact Or.inl hact
        · exact Or.inr (Or.inl (Nat.lt_of_lt_of_le hd (hdying i)))
        · exact Or.inr (Or.inr hle)
  · have hpool : x'.1.pool = x.1.pool.erase j := by rw [hx]; exact delete_pool x.1 j
    rw [hpool] at hi ⊢
    rcases h i (List.mem_of_mem_erase hi) with hact | hd | hle
    · exact Or.inl hact
    · exact Or.inr (Or.inl (Nat.lt_of_lt_of_le hd (hdying i)))
    · right; right
      rw [List.count_erase, List.count_erase]
      omega

theorem Acts.at_num {k : NumCaller} {todo : Option (List Nat)}
    (h : Acts o x (.sessionNum k todo) x' bs) : ∀ b ∈ bs, At o x' b := by
  have hstep : (x'.1, bs) ∈ numStep o x.1 k todo := h.step
  cases todo with
  | none =>
      simp only [numStep] at hstep
      split at hstep
      · cases hstep
      · obtain ⟨hx, rfl⟩ := Prod.ext_iff.mp (List.mem_singleton.mp hstep)
        have hpool : x'.1.pool = x.1.pool := by
          rw [show x'.1 = x.1.lock from hx]
          rfl
        refine List.forall_mem_singleton.mpr (Or.inr fun j _ => ?_)
        rw [hpool]
        exact Or.inr (Or.inr (Nat.le_refl _))
  | some todo =>
      cases todo with
      | nil =>
          obtain ⟨-, rfl⟩ := Prod.ext_iff.mp (List.mem_singleton.mp hstep)
          cases k with
          | alone => simp [numReturn]
          | before ch n a =>
              simp only [numReturn]
              split <;> simp [endPass, At]
          | after ch n a =>
              simp only [numReturn]
              split
              · simp [endPass, At]
              · next hmore =>
                  have hlt : a < o.attempts := by
                    push Not at hmore
                    exact hmore.2
                  simpa [At] using hlt
      | cons j₀ todo =>
          obtain ⟨j, -, hout⟩ := List.mem_map.mp hstep
          obtain ⟨hx, rfl⟩ := Prod.ext_iff.mp hout
          refine List.forall_mem_singleton.mpr (Counted.visit h.loc j hx.symm (fun i => ?_) ?_)
          · have heq := h.dying_eq (i := i)
            simp [dying] at heq
            omega
          · exact h.hungUp (by simp)

/-- **Step lemma.**  The assertions of the threads that go on. -/
theorem Acts.at_own (h : Acts o x a x' bs) : ∀ b ∈ bs, At o x' b := by
  have hstep := h.step
  cases a with
  | trigger =>
      simp only [ClientPool.step] at hstep
      split at hstep
      · cases hstep
      · obtain ⟨-, rfl⟩ := Prod.ext_iff.mp (List.mem_singleton.mp hstep)
        exact at_spawned _
  | top ch =>
      have hpos := o.attempts_pos
      simp only [ClientPool.step] at hstep
      split at hstep
      · cases hstep
      · obtain ⟨-, rfl⟩ := Prod.ext_iff.mp (List.mem_singleton.mp hstep)
        dsimp only
        split <;> simp [At, hpos]
  | pass | failed =>
      simp only [ClientPool.step] at hstep
      split at hstep <;> obtain ⟨-, rfl⟩ := Prod.ext_iff.mp (List.mem_singleton.mp hstep) <;>
        exact List.forall_mem_singleton.mpr trivial
  | backoff ch n a =>
      rcases List.mem_append.mp hstep with hout | hout
      · split at hout
        · obtain ⟨-, rfl⟩ := Prod.ext_iff.mp (List.mem_singleton.mp hout)
          exact List.forall_mem_singleton.mpr trivial
        · cases hout
      · obtain ⟨-, rfl⟩ := Prod.ext_iff.mp (List.mem_singleton.mp hout)
        exact List.forall_mem_singleton.mpr h.loc
  | sessionNum k todo => exact h.at_num
  | dial k checked =>
      cases checked with
      | false =>
          simp only [ClientPool.step] at hstep
          split at hstep <;> obtain ⟨-, rfl⟩ := Prod.ext_iff.mp (List.mem_singleton.mp hstep)
          · exact at_connectReturn k false
          · exact List.forall_mem_singleton.mpr trivial
      | true =>
          rcases List.mem_pair.mp hstep with hout | hout <;> obtain ⟨-, rfl⟩ := Prod.ext_iff.mp hout
          · exact at_connectReturn k false
          · exact List.forall_mem_singleton.mpr trivial
  | connect k j pc => exact h.at_connect
  | close =>
      simp only [ClientPool.step] at hstep
      split at hstep
      · obtain ⟨-, rfl⟩ := Prod.ext_iff.mp (List.mem_singleton.mp hstep)
        exact List.forall_mem_singleton.mpr trivial
      · cases hstep
      · obtain ⟨-, rfl⟩ := Prod.ext_iff.mp (List.mem_singleton.mp hstep)
        exact List.forall_mem_nil _
  | closeSection =>
      simp only [ClientPool.step] at hstep
      split at hstep
      · cases hstep
      · obtain ⟨-, rfl⟩ := Prod.ext_iff.mp (List.mem_singleton.mp hstep)
        exact List.forall_mem_singleton.mpr trivial
  | closeLoop todo =>
      cases todo with
      | nil =>
          obtain ⟨-, rfl⟩ := Prod.ext_iff.mp (List.mem_singleton.mp hstep)
          exact List.forall_mem_nil _
      | cons j₀ todo =>
          obtain ⟨j, -, hout⟩ := List.mem_map.mp hstep
          obtain ⟨-, rfl⟩ := Prod.ext_iff.mp hout
          exact List.forall_mem_singleton.mpr trivial
  | closeDrop j rest =>
      obtain ⟨-, rfl⟩ := Prod.ext_iff.mp (List.mem_singleton.mp hstep)
      exact List.forall_mem_singleton.mpr trivial
  | closeDropIgnore j rest =>
      obtain ⟨-, rfl⟩ := Prod.ext_iff.mp (List.mem_singleton.mp hstep)
      exact List.forall_mem_singleton.mpr (Nat.zero_le _)
  | stop j pc k => exact h.at_stop
  | gc j k =>
      obtain ⟨hx, rfl⟩ := Prod.ext_iff.mp (List.mem_singleton.mp hstep)
      have hover : Over (x'.1.sess j) := by
        rw [show x'.1.sess j = (x.1.sess j).gc from
          (congrArg (Shared.sess · j) hx).trans (modSess_self x.1 j _)]
        have hloc : Over (x.1.sess j) := h.loc
        simpa [Over] using hloc
      cases k with
      | reset => exact List.forall_mem_singleton.mpr hover
      | opening k => exact List.forall_mem_singleton.mpr (while_of_over hover)
      | _ => exact List.forall_mem_nil _
  | readEOF j =>
      obtain ⟨-, rfl⟩ := Prod.ext_iff.mp (List.mem_singleton.mp hstep)
      exact List.forall_mem_singleton.mpr (Nat.zero_le _)
  | reset j =>
      simp only [ClientPool.step] at hstep
      split at hstep <;> obtain ⟨-, rfl⟩ := Prod.ext_iff.mp (List.mem_singleton.mp hstep)
      · exact List.forall_mem_nil _
      · exact List.forall_mem_singleton.mpr (Nat.zero_le _)
  | closing | clear =>
      obtain ⟨-, rfl⟩ := Prod.ext_iff.mp (List.mem_singleton.mp hstep)
      exact List.forall_mem_nil _

/-! ## Interference -/

theorem open_of_ssMap {s : Shared} (hs : Inv o s) (h : s.ssMap ≠ none) :
    s.flight.done = false := by
  cases hdone : s.flight.done with
  | false => rfl
  | true => exact absurd (hs.nil.mpr hdone) h

theorem Acts.counted (h : Acts o x a x' bs) (hm : x.1.mutex = true) (ha : a.inSection = false)
    {todo : List Nat} (hc : Counted x todo) : Counted x' todo := by
  have hpool : x'.1.pool = x.1.pool := by
    unfold Shared.pool
    rw [(h.frame.mutex hm ha).2]
  -- no pass begins meanwhile: the loop needs the mutex, too
  have hne : ∀ ch, a ≠ .top ch := by
    rintro ch rfl
    have hstep := h.step
    simp only [ClientPool.step, hm, if_true] at hstep
    cases hstep
  rcases hc with hup | hc
  · exact Or.inl (h.hungUp hne hup)
  by_cases hup' : x'.2.hungUp = true
  · exact Or.inl hup'
  refine Or.inr fun j hj => ?_
  rw [hpool] at hj ⊢
  have hadm := h.inv.poolAdmitted j hj
  have hopen : x.1.flight.done = false := by
    refine open_of_ssMap h.inv fun hnil => ?_
    simp [Shared.pool, hnil] at hj
  rcases hc j hj with hact | hd | hle
  · rcases h.active_or_dying (h.inv.lt_of_admitted hadm) hact with hact' | hd
    · exact Or.inl hact'
    · exact Or.inr (Or.inl hd)
  · rcases h.dying_or_calls hadm hopen hd with hd' | ⟨hfree, -⟩ | hup
    · exact Or.inr (Or.inl hd')
    · -- the critical section keeps `runReconnect` out
      rw [hm] at hfree
      cases hfree
    · exact absurd hup hup'
  · exact Or.inr (Or.inr hle)

theorem Acts.connAttached (h : Acts o x a x' bs) {k : Caller} {pc : ConnPc}
    (hap : Apart o x.1 a (.connect k i pc)) (hbase : ConnAt x.1 i pc)
    (hat : ConnAttached x i pc) : ConnAttached x' i pc := by
  obtain ⟨hi, -⟩ := hap.booked.connecting rfl
  have hwho : a.connects = some i → Admitted x.1 i := fun hc => absurd hc (hap.connects i rfl)
  have hwhile : While x.1 i Attached → While x'.1 i Attached :=
    h.while hi hwho attached_setIgnore
  cases pc with
  | setIgnore => exact h.while hi hwho linked_setIgnore hat
  | run | check | onOpen | lock | pool | active => exact hwhile hat
  | prune | addSession =>
      have hopen := open_of_ssMap h.inv (Option.isSome_iff_ne_none.mp hbase.2.1)
      exact ⟨hwhile hat.1, h.deaf_while hopen hat.1 hat.2⟩
  | _ => trivial

/-- **Step lemma**, for a thread that another one interferes with. -/
theorem Acts.at_other (h : Acts o x a x' bs) (hap : Apart o x.1 a b) (hbase : Local x.1 b)
    (hat : At o x b) : At o x' b := by
  cases b with
  | pass ch n a => exact hat
  | backoff ch n a => exact hat
  | sessionNum k todo =>
      cases todo with
      | none => trivial
      | some todo =>
          obtain ⟨hm, ha⟩ := hap.inside rfl
          exact h.counted hm ha hat
  | connect k i pc => exact h.connAttached hap hbase hat
  | stop i pc k => exact Nat.le_trans hat (h.change hbase.1).gen_le
  | gc i k =>
      have hi : i < x.1.nextSess := by
        cases k with
        | opening k => exact hbase.1
        | _ => exact hbase
      exact (h.change hi).over hat
  | clear i => exact (h.change hbase).over hat
  | _ => trivial

end Acts

/-! ## Whole runs -/

theorem outline_valid (o : Options) :
    (outline o).ValidOver (ClientPool.outline o) (Known o) (client o) where
  entry x a _ h := by
    have hentry : entry x.1 a = true := h
    unfold entry at hentry
    split at hentry
    case h_9 => cases hentry
    all_goals
      refine ⟨?_, fun l => by cases l <;> rfl⟩
      first | trivial | exact Nat.zero_le _
  own x a x' bs hK hs hl hb hh hat hledger h := by
    obtain ⟨hstep, hghost⟩ := mem_step_withGhost h
    have hacts : Acts o x a x' bs := ⟨hs, hl, hb, hh, hat, hledger, hstep, hghost⟩
    exact ⟨hacts.healthy' hK, hacts.at_own, hacts.ledger'⟩
  other x a b x' bs hs hla hlb hpair hh hata hatb hpair' h := by
    obtain ⟨hstep, hghost⟩ := mem_step_withGhost h
    have hacts : Acts o x a x' bs := by
      refine ⟨hs, hla, fun l => ?_, hh, hata, fun l => ?_, hstep, hghost⟩
      · have := hpair l
        omega
      · have := hpair' l
        omega
    exact hacts.at_other (apart_of_pair hpair) hlb hatb

private theorem outline_start (o : Options) : (outline o).Holds start where
  shared := by
    refine ⟨fun _ hcalls => absurd rfl hcalls, fun hpend => ?_, fun i hgen => absurd rfl hgen,
      fun i _ => ⟨rfl, rfl⟩, fun i _ _ => rfl, fun i hadm => ?_, fun i _ _ => rfl,
      fun i hpos => absurd hpos (Nat.lt_irrefl 0)⟩
    · cases hpend
    · obtain ⟨n, hn⟩ := hadm
      cases hn
  loc := List.forall_mem_nil _
  ledger l := by cases l <;> rfl

section Runs

variable {o : Options} {c : Conf (Shared × Ghost) Thread}

theorem flight_start (o : Options) :
    SingleFlight.outline.Holds ((flightSimulation o).conf initial) :=
  SingleFlight.outline_initial

theorem flight_holds (h : (client o).Reaches start c) :
    SingleFlight.outline.Holds ⟨c.shared.1.flight, c.pool.flatMap Thread.flight⟩ :=
  (flightSimulation o).holds SingleFlight.outline_valid (flight_start o) h.erase

/-- **Run lemma.**  The client is healthy in every reachable configuration. -/
theorem healing_holds (h : (client o).Reaches start c) : (outline o).Holds c :=
  (outline_valid o).holds_run (ClientPool.outline_valid o)
    ((flightSimulation o).knows SingleFlight.outline_valid (flight_start o))
    (outline_initial o) (outline_start o) h

/-- The thread belongs to a reconnect loop. -/
def inLoop (a : Thread) : Bool := a.flight.any SingleFlight.Thread.isLoop

/-- The thread is in a pass of the reconnect loop. -/
def inPass (a : Thread) : Bool := a.flight.any SingleFlight.Thread.inPass

private theorem exists_inPass (h : (client o).Reaches start c)
    (hlt : c.shared.1.flight.finished.length < c.shared.1.flight.started) :
    ∃ a ∈ c.pool, inPass a = true := by
  have hledger := ((flight_holds h).ledger .pass).trans (total_toNat SingleFlight.Thread.inPass _)
  simp only [SingleFlight.outline] at hledger
  have hpos : 0 < (c.pool.flatMap Thread.flight).countP SingleFlight.Thread.inPass := by omega
  obtain ⟨t, ht, hin⟩ := List.countP_pos_iff.mp hpos
  obtain ⟨a, ha, hta⟩ := List.mem_flatMap.mp ht
  exact ⟨a, ha, List.any_eq_true.mpr ⟨t, hta, hin⟩⟩

private theorem exists_inLoop (h : (client o).Reaches start c)
    (hpend : c.shared.1.flight.reconnectPending = true) : ∃ a ∈ c.pool, inLoop a = true := by
  have hledger := ((flight_holds h).ledger .loop).trans (total_toNat SingleFlight.Thread.isLoop _)
  simp only [SingleFlight.outline, (healing_holds h).shared.looped hpend, Bool.toNat_true]
    at hledger
  have hpos : 0 < (c.pool.flatMap Thread.flight).countP SingleFlight.Thread.isLoop := by omega
  obtain ⟨t, ht, hin⟩ := List.countP_pos_iff.mp hpos
  obtain ⟨a, ha, hta⟩ := List.mem_flatMap.mp ht
  exact ⟨a, ha, List.any_eq_true.mpr ⟨t, hta, hin⟩⟩

/-- Thread `a` is `stop` of session `i`, and whatever it does, it gets to `runReconnect`. -/
def WillReconnect (o : Options) (s : Shared) (i : Nat) (a : Thread) : Prop :=
  dying i a = true ∧ ∀ s' bs, (s', bs) ∈ step o s a →
    s'.flight = s.flight.runReconnect.1 ∨ ∃ b ∈ bs, dying i b = true

private theorem exists_willReconnect (h : (client o).Reaches start c)
    (hopen : c.shared.1.flight.done = false) {i : Nat} (hadm : Admitted c.shared.1 i)
    (hd : 0 < c.shared.2.dying i) : ∃ a ∈ c.pool, dying i a = true ∧
      (sawEOF c.shared.1 i = true ∨ WillReconnect o c.shared.1 i a) := by
  have hc := healing_holds h
  have hbase := holds_reaches h.erase
  have hledger := (hc.ledger (.dying i)).trans (total_toNat (dying i) c.pool)
  simp only [outline] at hledger
  obtain ⟨a, ha, hdying⟩ := List.countP_pos_iff.mp (show 0 < c.pool.countP (dying i) by omega)
  refine ⟨a, ha, hdying, ?_⟩
  by_cases heof : sawEOF c.shared.1 i = true
  · exact Or.inl heof
  refine Or.inr ⟨hdying, fun s' bs hstep => ?_⟩
  have hacts : Acts o c.shared a (s', record o c.shared.1 a (s', bs) c.shared.2) bs :=
    ⟨hbase.shared, hbase.loc a ha, hbase.weight_le ha, hc.shared, hc.loc a ha, hc.weight_le ha,
      hstep, rfl⟩
  rcases hacts.calls_of_dying hadm hopen hdying with hcount | ⟨-, hflight⟩ | ⟨heof', -⟩
  · exact Or.inr (List.countP_pos_iff.mp hcount)
  · exact Or.inl hflight
  · exact absurd heof' heof

/-- **A short pool is attended.**  While the client is open, and once `runReconnect` has been
called for the first time: the pool holds enough active sessions, or the last pass has given
up after `maxReconnectAttempts` failures, or a pass is in progress, or the loop is there to
start the next one, or the `stop` of a session that had been admitted is on its way to
`runReconnect`; or a peer has hung up: a session that had been admitted is in its `stop`
after its read loop has seen EOF, or has been through there, without `runReconnect`, since
the last pass began. -/
theorem short_pool_is_attended (o : Options) (c : Conf (Shared × Ghost) Thread)
    (h : (client o).Reaches start c) (hopen : c.shared.1.flight.done = false)
    (hcalls : c.shared.1.flight.calls ≠ []) :
    o.number ≤ c.shared.1.pool.countP c.shared.1.active ∨ c.shared.2.gaveUp = true ∨
      (∃ a ∈ c.pool, inPass a = true) ∨
      (c.shared.1.flight.reconnectPending = true ∧ ∃ a ∈ c.pool, inLoop a = true) ∨
      (∃ i, Admitted c.shared.1 i ∧ ∃ a ∈ c.pool, WillReconnect o c.shared.1 i a) ∨
      c.shared.2.hungUp = true ∨
      ∃ i, Admitted c.shared.1 i ∧ sawEOF c.shared.1 i = true ∧
        ∃ a ∈ c.pool, dying i a = true := by
  rcases (healing_holds h).shared.covered hopen hcalls with
    (hfull | ⟨i, hadm, hd⟩) | hpend | hpass | hgave | hup
  · exact Or.inl hfull
  · right; right; right; right
    obtain ⟨a, ha, hdying, heof | hwill⟩ := exists_willReconnect h hopen hadm hd
    · exact Or.inr (Or.inr ⟨i, hadm, heof, a, ha, hdying⟩)
    · exact Or.inl ⟨i, hadm, a, ha, hwill⟩
  · exact Or.inr (Or.inr (Or.inr (Or.inl ⟨hpend, exists_inLoop h hpend⟩)))
  · exact Or.inr (Or.inr (Or.inl (exists_inPass h hpass)))
  · exact Or.inr (Or.inl hgave)
  · exact Or.inr (Or.inr (Or.inr (Or.inr (Or.inr (Or.inl hup)))))

/-- The only session of the pool is closed after the loop has gone; nothing is left but its
`stop`, and that one is about to bring the loop back. -/
theorem short_pool_is_attended_last_session :
    ∃ c : Conf (Shared × Ghost) Thread, (client ⟨1, 0, 0⟩).Reaches start c ∧
      c.shared.1.pool.countP c.shared.1.active = 0 ∧
      c.pool = [.stop 0 (.attrClient 0) .ret] ∧
      ∃ i, Admitted c.shared.1 i ∧ ∃ a ∈ c.pool, WillReconnect ⟨1, 0, 0⟩ c.shared.1 i a := by
  have hrun : ∃ c ∈ (client ⟨1, 0, 0⟩).run start (List.flatten
      [[.start .trigger], List.replicate 6 (.fire 0 0), [.fire 0 1],
        List.replicate 18 (.fire 0 0), [.start (.stop 0 .readOnce .ret)],
        List.replicate 3 (.fire 0 0)]),
      c.shared.1.flight.done = false ∧ c.shared.1.flight.calls ≠ [] ∧
      c.shared.1.pool.countP c.shared.1.active = 0 ∧ c.shared.2.gaveUp = false ∧
      c.shared.1.flight.reconnectPending = false ∧ c.shared.2.hungUp = false ∧
      sawEOF c.shared.1 0 = false ∧ c.pool = [.stop 0 (.attrClient 0) .ret] := by
    decide +kernel
  obtain ⟨c, hc, hopen, hcalls, hcount, hgave, hpend, hup, heof, hpool⟩ := hrun
  refine ⟨c, ⟨_, hc⟩, hcount, hpool, ?_⟩
  rcases short_pool_is_attended ⟨1, 0, 0⟩ c ⟨_, hc⟩ hopen hcalls with
    hfull | hgave' | ⟨a, ha, hin⟩ | ⟨hpend', -⟩ | hwill | hup' | ⟨i, -, heof', a, ha, hdying⟩
  · rw [hcount] at hfull
    exact absurd hfull (by decide)
  · rw [hgave] at hgave'
    cases hgave'
  · rw [hpool] at ha
    rw [List.mem_singleton.mp ha] at hin
    exact absurd hin (by decide)
  · rw [hpend] at hpend'
    cases hpend'
  · exact hwill
  · rw [hup] at hup'
    cases hup'
  · rw [hpool] at ha
    rw [List.mem_singleton.mp ha] at hdying
    obtain rfl : 0 = i := eq_of_beq hdying
    rw [heof] at heof'
    cases heof'

end Runs

end Getty.Transport.ClientPool.Healing
