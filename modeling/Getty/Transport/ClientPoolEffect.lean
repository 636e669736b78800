import Getty.Transport.ClientPoolSafety

/-!
# What a step of the client does

The steps of `ClientPool.prog`, said once for everything that has to do with how the pool is
refilled: what a step does to a session and to its attributes, to the pool, to the fields of
the reconnect loop, and which goroutines get past the `once` of a session.

## Main results

* `effect_step` — the effect of any step.
* `stopMove` — the steps of `session.stop` inside the body of the `once`.
* `Change.attrs_eq`, `Change.active` — who touches the attributes of a session, and what
  makes it inactive.
-/

namespace Getty.Transport.ClientPool

open Getty.Verified.ThreadPool
open Getty.Transport.Reconnect (Options)
open Getty.Transport.SingleFlight (Flight)

/-- The first generation of the session is over. -/
def Over (x : Sess) : Prop := x.gen = 0 → x.once = .finished

/-- What thread `a` may make of session `i`. -/
inductive Change (s : Shared) (a : Thread) (i : Nat) : Sess → Prop where
  | same : Change s a i (s.sess i)
  | attrs (f : Attrs → Attrs) (hi : i < s.nextSess)
      (h : (a.connects = some i ∧ ¬ Admitted s i) ∨ s.flight.done = true) :
      Change s a i { s.sess i with attrs := (s.sess i).attrs.map f }
  | eof (hi : i < s.nextSess) (ha : a = .readEOF i) : Change s a i ((s.sess i).setIgnore true)
  | resetting (b : Bool) (hi : i < s.nextSess) : Change s a i { s.sess i with resetting := b }
  | run (g : Nat) (k : Cont) (hi : i < s.nextSess) (ha : a = .stop i (.doOnce g) k)
      (hg : (s.sess i).gen = g) (hfresh : (s.sess i).once = .fresh) :
      Change s a i { s.sess i with once := .running }
  | close (g : Nat) (k : Cont) (hi : i < s.nextSess) (ha : a = .stop i (.closeDone g) k) :
      Change s a i { s.sess i with done := true }
  | finish (g : Nat) (k : Cont) (hi : i < s.nextSess) (ha : a = .stop i (.finish g) k) :
      Change s a i ((s.sess i).finishOnce g)
  | gc (k : Cont) (hi : i < s.nextSess) (ha : a = .gc i k) : Change s a i (s.sess i).gc
  | clear (hi : i < s.nextSess) (ha : a = .clear i) : Change s a i (s.sess i).clear

/-- What it may make of the pool. -/
inductive PoolChange (s : Shared) (a : Thread) (s' : Shared) : Prop where
  | same (h : s'.pool = s.pool)
  | erase (j : Nat) (hj : s.active j = false) (h : s'.pool = s.pool.erase j)
  | cons (k : Caller) (j : Nat) (ha : a = .connect k j .addSession) (h : s'.pool = j :: s.pool)
  | closed (h : s'.flight.done = true) (hpool : s'.pool = [])

/-- Why a pass may end. -/
def Ends (o : Options) (s : Shared) : Thread → Prop
  | .pass _ _ a => s.flight.done = true ∨ o.attempts ≤ a
  | .sessionNum (.before _ _ _) (some []) => o.number ≤ s.pool.length
  | .sessionNum (.after _ _ a) (some []) => o.number ≤ s.pool.length ∨ o.attempts ≤ a
  | _ => s.flight.done = true

/-- What it may make of the reconnect fields. -/
inductive FlightChange (o : Options) (s : Shared) (a : Thread) (s' : Shared) : Prop where
  | same (h : s'.flight = s.flight)
  | closeChan (ch : Nat) (h : s'.flight = s.flight.closeChan ch)
  | trigger (hm : s.mutex = false) (h : s'.flight = s.flight.runReconnect.1)
  | top (ch : Nat) (ha : a = .top ch) (h : s'.flight = s.flight.next.1)
  | finish (n : Nat) (hends : Ends o s a) (h : s'.flight = s.flight.finish n)
  | stop (h : s'.flight = s.flight.stop)

/-- `stop` is in the body of the `once`. -/
@[simp] def StopPc.inOnce : StopPc → Bool
  | .readOnce => false
  | .doOnce _ => false
  | _ => true

/-- The generation of the session that `stop` works on. -/
@[simp] def StopPc.generation : StopPc → Nat
  | .readOnce => 0
  | .doOnce g | .closeDone g | .attrClient g | .attrIgnore g _ | .reconnect g | .finish g => g

/-- The thread runs the body of the `once` of session `i`, in generation `g`. -/
def inBody (i g : Nat) : Thread → Bool
  | .stop j pc _ => pc.inOnce && (pc.generation == g && j == i)
  | _ => false

/-- The thread is not in the body of a `once`. -/
def plain : Thread → Bool
  | .stop _ pc _ => !pc.inOnce
  | _ => true

/-- Everything that a step may do. -/
structure Effect (o : Options) (s : Shared) (a : Thread) (s' : Shared) (bs : List Thread) :
    Prop where
  sess : ∀ i, Change s a i (s'.sess i) ∨ (i = s.nextSess ∧ s'.sess i = Sess.dialed)
  pool : PoolChange s a s'
  admitted : s'.admitted = s.admitted ∨ ∃ k j, a = .connect k j .addSession ∧
    s'.sess = s.sess ∧ s'.admitted = (j, s.sect) :: s.admitted
  flight : FlightChange o s a s'
  threads : (∀ j pc k, a ≠ .stop j pc k) → ∀ b ∈ bs, plain b = true

section Effects

variable {o : Options} {s s' : Shared} {a : Thread} {bs : List Thread} {i : Nat}

/-- Most steps do none of it. -/
theorem Effect.quiet (hsess : s'.sess = s.sess) (hpool : s'.pool = s.pool)
    (hadm : s'.admitted = s.admitted) (hflight : s'.flight = s.flight)
    (hbs : (∀ j pc k, a ≠ .stop j pc k) → ∀ b ∈ bs, plain b = true) : Effect o s a s' bs where
  sess i := Or.inl (by rw [hsess]; exact .same)
  pool := .same hpool
  admitted := Or.inl hadm
  flight := .same hflight
  threads := hbs

/-- A step on the reconnect fields. -/
theorem Effect.of_flight (hsess : s'.sess = s.sess) (hpool : s'.pool = s.pool)
    (hadm : s'.admitted = s.admitted) (hflight : FlightChange o s a s')
    (hbs : (∀ j pc k, a ≠ .stop j pc k) → ∀ b ∈ bs, plain b = true) : Effect o s a s' bs where
  sess i := Or.inl (by rw [hsess]; exact .same)
  pool := .same hpool
  admitted := Or.inl hadm
  flight := hflight
  threads := hbs

/-- A step on one session. -/
theorem Effect.modSess {j : Nat} {f : Sess → Sess} (h : Change s a j (f (s.sess j)))
    (hsess : s'.sess = (s.modSess j f).sess) (hpool : s'.pool = s.pool)
    (hadm : s'.admitted = s.admitted) (hflight : s'.flight = s.flight)
    (hbs : (∀ j pc k, a ≠ .stop j pc k) → ∀ b ∈ bs, plain b = true) : Effect o s a s' bs where
  sess i := by
    rw [hsess]
    by_cases hij : i = j
    · subst hij
      simpa [Shared.modSess] using Or.inl h
    · simpa [Shared.modSess, hij] using Or.inl Change.same
  pool := .same hpool
  admitted := Or.inl hadm
  flight := .same hflight
  threads := hbs

theorem plain_connectReturn (k : Caller) (ok : Bool) :
    ∀ b ∈ connectReturn k ok, plain b = true := by
  cases k <;> cases ok <;> simp [connectReturn, plain]

theorem plain_spawned (ch : Option Nat) : ∀ b ∈ spawned ch, plain b = true := by
  cases ch <;> simp [spawned, plain]

theorem plain_afterStop (s : Shared) (j : Nat) (k : Cont) :
    ∀ b ∈ (afterStop s j k).2, plain b = true := by
  cases k with
  | dropped k => exact plain_connectReturn k false
  | _ => simp [afterStop, plain]

theorem plain_inBody {g : Nat} (b : Thread) (h : plain b = true) : inBody i g b = false := by
  cases b with
  | stop j pc k => simp_all [plain, inBody]
  | _ => rfl

theorem countP_plain {P : Thread → Bool} (hP : ∀ b, plain b = true → P b = false)
    (h : ∀ b ∈ bs, plain b = true) : bs.countP P = 0 := by
  rw [List.countP_eq_zero]
  intro b hb
  rw [hP b (h b hb)]
  decide

theorem afterStop_same (s : Shared) (j : Nat) (k : Cont) :
    (afterStop s j k).1.sess = s.sess ∧ (afterStop s j k).1.pool = s.pool ∧
      (afterStop s j k).1.admitted = s.admitted ∧ (afterStop s j k).1.flight = s.flight := by
  cases k <;> exact ⟨rfl, rfl, rfl, rfl⟩

theorem effect_visit (j : Nat) (hbs : ∀ b ∈ bs, plain b = true) : Effect o s a (s.visit j) bs := by
  unfold Shared.visit
  split
  · exact .quiet rfl rfl rfl rfl fun _ => hbs
  · next hj =>
      refine ⟨fun i => Or.inl .same, .erase j (by simpa using hj) ?_, Or.inl rfl, .same rfl,
        fun _ => hbs⟩
      exact delete_pool s j

private theorem effect_stopStep {j : Nat} {pc : StopPc} {k : Cont} (hl : Local s (.stop j pc k))
    (h : (s', bs) ∈ stopStep s j k pc) : Effect o s (.stop j pc k) s' bs := by
  have hj := hl.1
  have hno : (∀ j' pc' k', Thread.stop j pc k ≠ .stop j' pc' k') → ∀ b ∈ bs, plain b = true :=
    fun hne => absurd rfl (hne j pc k)
  cases pc with
  | readOnce =>
      cases List.mem_singleton.mp h
      exact .quiet rfl rfl rfl rfl hno
  | doOnce g =>
      obtain ⟨hsess, hpool, hadm, hflight⟩ := afterStop_same s j k
      simp only [stopStep] at h
      split at h
      · next hg =>
          split at h
          · next hfresh =>
              cases List.mem_singleton.mp h
              exact .modSess (.run g k hj rfl hg hfresh) rfl rfl rfl rfl hno
          · cases h
          · obtain ⟨rfl, rfl⟩ := Prod.ext_iff.mp (List.mem_singleton.mp h)
            exact .quiet hsess hpool hadm hflight hno
      · obtain ⟨rfl, rfl⟩ := Prod.ext_iff.mp (List.mem_singleton.mp h)
        exact .quiet hsess hpool hadm hflight hno
  | closeDone g =>
      cases List.mem_singleton.mp h
      exact .modSess (.close g k hj rfl) rfl rfl rfl rfl hno
  | attrClient g =>
      cases List.mem_singleton.mp h
      exact .quiet rfl rfl rfl rfl hno
  | attrIgnore g found =>
      simp only [stopStep] at h
      split at h <;> cases List.mem_singleton.mp h <;> exact .quiet rfl rfl rfl rfl hno
  | reconnect g =>
      obtain ⟨hm, h⟩ := mem_blocked h
      cases h
      exact .of_flight rfl rfl rfl (.trigger (by simpa using hm) rfl) hno
  | finish g =>
      obtain ⟨rfl, rfl⟩ := Prod.ext_iff.mp (List.mem_singleton.mp h)
      obtain ⟨hsess, hpool, hadm, hflight⟩ :=
        afterStop_same (s.modSess j fun x => x.finishOnce g) j k
      exact .modSess (.finish g k hj rfl) hsess hpool hadm hflight hno

private theorem effect_connectStep {k : Caller} {j : Nat} {pc : ConnPc} (hl : ConnAt s j pc)
    (hj : j < s.nextSess) (h : (s', bs) ∈ connectStep o s k j pc) :
    Effect o s (.connect k j pc) s' bs := by
  have hattrs : ∀ f, ¬ Admitted s j →
      Change s (.connect k j pc) j { s.sess j with attrs := (s.sess j).attrs.map f } :=
    fun f hadm => .attrs f hj (Or.inl ⟨rfl, hadm⟩)
  have hret := plain_connectReturn k
  cases pc with
  | newSession =>
      rcases mem_newSession h with h | h <;> cases h
      · exact .quiet rfl rfl rfl rfl fun _ => by simp [plain]
      · exact .quiet rfl rfl rfl rfl fun _ => hret false
  | setClient | setIgnore =>
      cases List.mem_singleton.mp h
      exact .modSess (hattrs _ hl) rfl rfl rfl rfl fun _ => by simp [plain]
  | run | pool | active =>
      simp only [connectStep] at h
      split at h <;> cases List.mem_singleton.mp h <;>
        exact .quiet rfl rfl rfl rfl fun _ => by simp [plain]
  | check =>
      obtain ⟨-, h⟩ := mem_guarded h
      cases h
      exact .quiet rfl rfl rfl rfl fun _ => by simp [plain]
  | onOpen =>
      rcases List.mem_pair.mp h with h | h <;> cases h <;>
        exact .quiet rfl rfl rfl rfl fun _ => by simp [plain]
  | lock =>
      obtain ⟨-, h⟩ := mem_blocked h
      cases h
      exact .quiet rfl rfl rfl rfl fun _ => by simp [plain]
  | prune todo =>
      cases todo with
      | nil =>
          cases List.mem_singleton.mp h
          exact .quiet rfl rfl rfl rfl fun _ => by simp [plain]
      | cons j₀ todo =>
          obtain ⟨j', -, hout⟩ := List.mem_map.mp h
          cases hout
          exact effect_visit j' (by simp [plain])
  | addSession =>
      simp only [connectStep] at h
      split at h
      · cases List.mem_singleton.mp h
        exact .quiet rfl rfl rfl rfl fun _ => by simp [plain]
      · cases List.mem_singleton.mp h
        refine ⟨fun i => Or.inl .same, .cons k j rfl ?_, Or.inr ⟨k, j, rfl, rfl, rfl⟩, .same rfl,
          fun _ => by simp [plain]⟩
        obtain ⟨ss, hss⟩ := Option.isSome_iff_exists.mp hl.2.1
        simp [Shared.addSession, Shared.pool, hss]
  | drop why =>
      cases List.mem_singleton.mp h
      refine .modSess (hattrs _ ?_) rfl rfl rfl rfl fun _ => by simp [plain]
      cases why with
      | inactive => exact hl.1
      | gone => exact hl
      | surplus => exact hl
  | dropIgnore why =>
      cases List.mem_singleton.mp h
      refine .modSess (hattrs _ ?_) rfl rfl rfl rfl fun _ => by simp [plain]
      cases why <;> exact hl.1
  | unlock why =>
      cases why <;> cases List.mem_singleton.mp h
      · exact .quiet rfl rfl rfl rfl fun _ => by simp [plain]
      · exact .quiet rfl rfl rfl rfl fun _ => hret false
      · exact .quiet rfl rfl rfl rfl fun _ => by simp [plain]
  | unlockTrue =>
      cases List.mem_singleton.mp h
      exact .quiet rfl rfl rfl rfl fun _ => hret true

private theorem effect_endPass {ch n : Nat} (h : Ends o s a) :
    Effect o s a (endPass s ch n).1 (endPass s ch n).2 :=
  .of_flight rfl rfl rfl (.finish n h rfl) fun _ => by simp [endPass, plain]

private theorem effect_numStep {k : NumCaller} {todo : Option (List Nat)}
    (h : (s', bs) ∈ numStep o s k todo) : Effect o s (.sessionNum k todo) s' bs := by
  cases todo with
  | none =>
      obtain ⟨-, h⟩ := mem_blocked h
      cases h
      exact .quiet rfl rfl rfl rfl fun _ => by simp [plain]
  | some todo =>
      cases todo with
      | nil =>
          obtain ⟨rfl, rfl⟩ := Prod.ext_iff.mp (List.mem_singleton.mp h)
          cases k with
          | alone => exact .quiet rfl rfl rfl rfl fun _ => by simp [numReturn]
          | before ch n a | after ch n a =>
              simp only [numReturn]
              split
              · next hfull =>
                  refine .of_flight rfl rfl rfl (.finish n hfull rfl) fun _ => ?_
                  simp [endPass, plain]
              · exact .quiet rfl rfl rfl rfl fun _ => by simp [plain]
      | cons j₀ todo =>
          obtain ⟨j, -, hout⟩ := List.mem_map.mp h
          cases hout
          exact effect_visit j (by simp [plain])

/-- **Step lemma.**  What a step of the client does, as far as it matters here. -/
theorem effect_step (hs : Inv o s) (hl : Local s a) (hb : Booked o s a)
    (h : (s', bs) ∈ step o s a) : Effect o s a s' bs := by
  cases a with
  | trigger =>
      obtain ⟨hm, h⟩ := mem_blocked h
      cases h
      exact .of_flight rfl rfl rfl (.trigger (by simpa using hm) rfl) fun _ => plain_spawned _
  | top ch =>
      obtain ⟨-, h⟩ := mem_blocked h
      cases h
      refine .of_flight rfl rfl rfl (.top ch rfl rfl) fun _ => ?_
      split <;> simp [plain]
  | pass ch n a =>
      simp only [step] at h
      split at h
      · cases List.mem_singleton.mp h
        exact .quiet rfl rfl rfl rfl fun _ => by simp [plain]
      · next hend =>
          cases List.mem_singleton.mp h
          refine effect_endPass ?_
          by_cases hdone : s.flight.done = true
          · exact Or.inl hdone
          · refine Or.inr (Nat.le_of_not_lt fun hlt => hend ⟨hlt, ?_⟩)
            simpa using hdone
  | failed ch n a =>
      simp only [step] at h
      split at h
      · next hdone =>
          cases List.mem_singleton.mp h
          exact effect_endPass hdone
      · cases List.mem_singleton.mp h
        exact .quiet rfl rfl rfl rfl fun _ => by simp [plain]
  | backoff ch n a =>
      rcases List.mem_append.mp h with h | h
      · split at h
        · next hdone =>
            cases List.mem_singleton.mp h
            exact effect_endPass hdone
        · cases h
      · cases List.mem_singleton.mp h
        exact .quiet rfl rfl rfl rfl fun _ => by simp [plain]
  | closing ch =>
      cases List.mem_singleton.mp h
      exact .of_flight rfl rfl rfl (.closeChan ch rfl) fun _ => by simp
  | sessionNum k todo => exact effect_numStep h
  | dial k checked =>
      cases checked with
      | false =>
          simp only [step] at h
          split at h <;> cases List.mem_singleton.mp h
          · exact .quiet rfl rfl rfl rfl fun _ => plain_connectReturn k false
          · exact .quiet rfl rfl rfl rfl fun _ => by simp [plain]
      | true =>
          rcases List.mem_pair.mp h with h | h <;> cases h
          · exact .quiet rfl rfl rfl rfl fun _ => plain_connectReturn k false
          · refine ⟨fun i => ?_, .same rfl, Or.inl rfl, .same rfl, fun _ => by simp [plain]⟩
            by_cases hi : i = s.nextSess
            · exact Or.inr ⟨hi, by simp [Shared.create, hi]⟩
            · refine Or.inl ?_
              simpa [Shared.create, hi] using Change.same (s := s) (i := i)
  | connect k j pc => exact effect_connectStep hl (hb.connecting rfl).1 h
  | close =>
      cases honce : s.stopOnce with
      | fresh =>
          simp only [step, honce] at h
          cases List.mem_singleton.mp h
          exact .quiet rfl rfl rfl rfl fun _ => by simp [plain]
      | running => simp [step, honce] at h
      | finished =>
          simp only [step, honce] at h
          cases List.mem_singleton.mp h
          exact .quiet rfl rfl rfl rfl fun _ => by simp
  | closeSection =>
      obtain ⟨-, h⟩ := mem_blocked h
      cases h
      exact ⟨fun i => Or.inl .same, .closed s.flight.stop_done rfl, Or.inl rfl, .stop rfl,
        fun _ => by simp [plain]⟩
  | closeLoop todo =>
      cases todo with
      | nil =>
          cases List.mem_singleton.mp h
          exact .quiet rfl rfl rfl rfl fun _ => by simp
      | cons j₀ todo =>
          obtain ⟨j, -, hout⟩ := List.mem_map.mp h
          cases hout
          exact .quiet rfl rfl rfl rfl fun _ => by simp [plain]
  | closeDrop j rest =>
      cases List.mem_singleton.mp h
      have hj := hs.lt_of_admitted (hl.2 j (List.mem_cons_self ..))
      exact .modSess (.attrs _ hj (Or.inr hl.1)) rfl rfl rfl rfl fun _ => by simp [plain]
  | closeDropIgnore j rest =>
      cases List.mem_singleton.mp h
      have hj := hs.lt_of_admitted (hl.1.2 j (List.mem_cons_self ..))
      exact .modSess (.attrs _ hj (Or.inr hl.1.1)) rfl rfl rfl rfl fun _ => by simp [plain]
  | stop j pc k => exact effect_stopStep hl h
  | gc j k =>
      cases List.mem_singleton.mp h
      have hj : j < s.nextSess := by
        cases k with
        | opening k => exact hl.1
        | _ => exact hl
      refine .modSess (.gc k hj rfl) rfl rfl rfl rfl fun _ => ?_
      cases k <;> simp [afterGc, plain]
  | readEOF j =>
      cases List.mem_singleton.mp h
      exact .modSess (.eof hl rfl) rfl rfl rfl rfl fun _ => by simp [plain]
  | reset j =>
      simp only [step] at h
      split at h
      · cases List.mem_singleton.mp h
        exact .quiet rfl rfl rfl rfl fun _ => by simp
      · cases List.mem_singleton.mp h
        exact .modSess (.resetting true hl) rfl rfl rfl rfl fun _ => by simp [plain]
  | clear j =>
      cases List.mem_singleton.mp h
      exact .modSess (.clear hl rfl) rfl rfl rfl rfl fun _ => by simp

/-! ### Sessions only move on -/

@[simp] theorem finishOnce_gen (x : Sess) (g : Nat) : (x.finishOnce g).gen = x.gen := by
  unfold Sess.finishOnce
  split <;> rfl

@[simp] theorem finishOnce_connection (x : Sess) (g : Nat) :
    (x.finishOnce g).connection = x.connection := by
  unfold Sess.finishOnce
  split <;> rfl

@[simp] theorem finishOnce_active (x : Sess) (g : Nat) : (x.finishOnce g).active = x.active := by
  unfold Sess.finishOnce
  split <;> rfl

@[simp] theorem finishOnce_attrs (x : Sess) (g : Nat) : (x.finishOnce g).attrs = x.attrs := by
  unfold Sess.finishOnce
  split <;> rfl

theorem finishOnce_once (x : Sess) (g : Nat) :
    (x.finishOnce g).once = if x.gen = g then .finished else x.once := by
  unfold Sess.finishOnce
  split <;> rfl

@[simp] theorem gc_gen (x : Sess) : x.gc.gen = x.gen := by
  unfold Sess.gc
  split <;> rfl

@[simp] theorem gc_once (x : Sess) : x.gc.once = x.once := by
  unfold Sess.gc
  split <;> rfl

private theorem gc_connection {x : Sess} (h : x.connection = false) : x.gc.connection = false := by
  unfold Sess.gc
  split
  · exact h
  · rfl

variable {y : Sess}

theorem Change.lt (h : Change s a i y) : y = s.sess i ∨ i < s.nextSess := by
  cases h with
  | same => exact Or.inl rfl
  | _ => exact Or.inr ‹_›

theorem Change.gen_le (h : Change s a i y) : (s.sess i).gen ≤ y.gen := by
  cases h with
  | finish g k => simp
  | gc k => simp
  | clear => exact Nat.le_succ _
  | _ => exact Nat.le_refl _

theorem Change.over (h : Change s a i y) (hx : Over (s.sess i)) : Over y := by
  cases h with
  | run g k hi ha hg hfresh =>
      intro hgen
      have hfin := hx hgen
      rw [hfresh] at hfin
      cases hfin
  | finish g k =>
      intro hgen
      rw [finishOnce_once]
      split
      · rfl
      · exact hx (by simpa using hgen)
  | gc k => simpa [Over] using hx
  | clear => exact fun hgen => absurd hgen (Nat.succ_ne_zero _)
  | _ => exact hx

theorem Change.reset (h : Change s a i y) (hx : (s.sess i).gen ≠ 0 → (s.sess i).connection = false)
    (hy : y.gen ≠ 0) : y.connection = false := by
  cases h with
  | finish g k => simpa using hx (by simpa using hy)
  | gc k => exact gc_connection (hx (by simpa using hy))
  | clear => rfl
  | _ => exact hx hy

/-- In its first generation, the attributes of a session stay as they are until the `once`
body is through, but for what its own `connect` call does before it is admitted, and EOF. -/
theorem Change.attrs_eq (h : Change s a i y) (hgc : ∀ k, a = .gc i k → Over (s.sess i))
    (hgen : y.gen = 0) (honce : y.once ≠ .finished) :
    (s.sess i).gen = 0 ∧ (s.sess i).once ≠ .finished ∧
      (y.attrs = (s.sess i).attrs ∨
        (∃ f, y.attrs = (s.sess i).attrs.map f) ∧
          (a.connects = some i ∧ ¬ Admitted s i ∨ s.flight.done = true) ∨
        y.attrs = ((s.sess i).setIgnore true).attrs) := by
  cases h with
  | attrs f hi hwho => exact ⟨hgen, honce, Or.inr (Or.inl ⟨⟨f, rfl⟩, hwho⟩)⟩
  | eof => exact ⟨hgen, honce, Or.inr (Or.inr rfl)⟩
  | run g k hi ha hg hfresh =>
      refine ⟨hgen, ?_, Or.inl rfl⟩
      rw [hfresh]
      decide
  | finish g k =>
      rw [finishOnce_once] at honce
      split at honce
      · exact absurd rfl honce
      · exact ⟨by simpa using hgen, honce, Or.inl (finishOnce_attrs _ g)⟩
  | gc k hi ha => exact absurd (hgc k ha (by simpa using hgen)) (by simpa using honce)
  | clear => exact absurd hgen (Nat.succ_ne_zero _)
  | _ => exact ⟨hgen, honce, Or.inl rfl⟩

/-- Only `stop` makes a session inactive. -/
theorem Change.active (h : Change s a i y) (hgc : ∀ k, a = .gc i k → Over (s.sess i))
    (hclear : a = .clear i → Over (s.sess i)) (hover : Over (s.sess i) → s.active i = false)
    (hx : s.active i = true) : y.active = true ∨ ∃ g k, a = .stop i (.closeDone g) k := by
  cases h with
  | close g k hi ha => exact Or.inr ⟨g, k, ha⟩
  | finish g k =>
      left
      rw [finishOnce_active]
      exact hx
  | gc k hi ha =>
      rw [hover (hgc k ha)] at hx
      cases hx
  | clear hi ha =>
      rw [hover (hclear ha)] at hx
      cases hx
  | _ => exact Or.inl hx

/-! ### Inside the body of the `once` -/

/-- `stop` of a session finds the client. -/
def Linked (x : Option Attrs) : Prop := (x.map Attrs.client).getD false = true

/-- The steps of `stop`, as far as the body of the `once` is concerned. -/
inductive StopMove (s s' : Shared) (j : Nat) (k : Cont) : StopPc → List Thread → Prop where
  | reads : StopMove s s' j k .readOnce [.stop j (.doOnce (s.sess j).gen) k]
  | skips (g : Nat) (hover : (s.sess j).gen = g → (s.sess j).once = .finished)
      (hsess : s'.sess = s.sess) : StopMove s s' j k (.doOnce g) (afterStop s j k).2
  | enters (g : Nat) (hg : (s.sess j).gen = g) (hfresh : (s.sess j).once = .fresh)
      (hsess : s'.sess j = { s.sess j with once := .running }) :
      StopMove s s' j k (.doOnce g) [.stop j (.closeDone g) k]
  | closes (g : Nat) : StopMove s s' j k (.closeDone g) [.stop j (.attrClient g) k]
  | finds (g : Nat) (h : Linked (s.sess j).attrs) :
      StopMove s s' j k (.attrClient g) [.stop j (.attrIgnore g true) k]
  | misses (g : Nat) (h : ¬ Linked (s.sess j).attrs) :
      StopMove s s' j k (.attrClient g) [.stop j (.attrIgnore g false) k]
  | decides (g : Nat) : StopMove s s' j k (.attrIgnore g true) [.stop j (.reconnect g) k]
  | ignores (g : Nat) (found : Bool)
      (h : found = true → (s.sess j).attrs.bind Attrs.ignoreReconnect ≠ some false) :
      StopMove s s' j k (.attrIgnore g found) [.stop j (.finish g) k]
  | calls (g : Nat) (ch : Option Nat) (hm : s.mutex = false)
      (hflight : s'.flight = s.flight.runReconnect.1) :
      StopMove s s' j k (.reconnect g) (.stop j (.finish g) k :: spawned ch)
  | leaves (g : Nat) (s₁ : Shared) (hsess : s'.sess j = (s.sess j).finishOnce g) :
      StopMove s s' j k (.finish g) (afterStop s₁ j k).2

theorem stopMove {s s' : Shared} {j : Nat} {k : Cont} {pc : StopPc}
    (h : (s', bs) ∈ step o s (.stop j pc k)) : StopMove s s' j k pc bs := by
  simp only [step] at h
  cases pc with
  | readOnce =>
      cases List.mem_singleton.mp h
      exact .reads
  | doOnce g =>
      simp only [stopStep] at h
      split at h
      · next hg =>
          split at h
          · next hfresh =>
              cases List.mem_singleton.mp h
              exact .enters g hg hfresh (modSess_self s j _)
          · cases h
          · next hfin =>
              obtain ⟨rfl, rfl⟩ := Prod.ext_iff.mp (List.mem_singleton.mp h)
              exact .skips g (fun _ => hfin) (afterStop_same s j k).1
      · next hg =>
          obtain ⟨rfl, rfl⟩ := Prod.ext_iff.mp (List.mem_singleton.mp h)
          exact .skips g (fun heq => absurd heq hg) (afterStop_same s j k).1
  | closeDone g =>
      cases List.mem_singleton.mp h
      exact .closes g
  | attrClient g =>
      cases List.mem_singleton.mp h
      cases hfound : ((s.sess j).attrs.map Attrs.client).getD false with
      | true => exact .finds g hfound
      | false =>
          refine .misses g ?_
          unfold Linked
          rw [hfound]
          decide
  | attrIgnore g found =>
      simp only [stopStep] at h
      split at h
      · next hfound =>
          cases List.mem_singleton.mp h
          rw [hfound.1]
          exact .decides g
      · next hfound =>
          cases List.mem_singleton.mp h
          exact .ignores g found fun hf hig => hfound ⟨hf, hig⟩
  | reconnect g =>
      obtain ⟨hm, h⟩ := mem_blocked h
      cases h
      exact .calls g _ (by simpa using hm) rfl
  | finish g =>
      obtain ⟨rfl, rfl⟩ := Prod.ext_iff.mp (List.mem_singleton.mp h)
      refine .leaves g _ ?_
      rw [(afterStop_same _ j k).1]
      exact modSess_self s j _

end Effects

end Getty.Transport.ClientPool
