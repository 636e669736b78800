import Getty.Transport.ClientPoolEffect
import Getty.Verified.Ghost

/-!
# The invariant of a pool that is refilled

A pooled session can die at any moment: its connection ends, somebody closes or resets it.
Its `stop` closes `done`, looks for the two reconnect attributes, and calls `runReconnect`,
unless the read loop has seen EOF, and has told it not to.  Meanwhile the reconnect loop may be
anywhere: counting the sessions, dialing, admitting one, or on its way out because it has just
counted enough.

The client is that of `ClientPool`, with everything in it, and with ghosts that no step
reads.  `gaveUp` says that the last pass ended because `maxReconnectAttempts` attempts in a
row have failed; `hungUp` says that since the last pass began, a session of the pool has
closed without `runReconnect`, after EOF; the other two count goroutines.  The application
leaves the reconnect attributes alone.

The invariant has two parts.  A session that was admitted to the pool keeps its attributes
until the body of its `once` is through, so that its `stop` cannot miss them; and whenever
the pool is short, somebody is in charge: a session that is dying, a pending trigger, a pass,
or nobody any more because the last pass has given up or a peer has hung up.

## Main results

* `Acts.calls_of_dying` — a dying session of the pool calls `runReconnect`, or has seen EOF.
* `Acts.covered` — nobody is missing unnoticed.
* `Acts.healthy'` — every step keeps the invariant.
-/

namespace Getty.Transport.ClientPool.Healing

open Getty.Verified.ThreadPool
open Getty.Transport.Reconnect (Options)
open Getty.Transport.SingleFlight (Flight)

/-! ## Ghosts -/

/-- `stop` of a session that was never reset has closed `done` and has not called
`runReconnect` yet. -/
def dying (i : Nat) : Thread → Bool
  | .stop j (.attrClient 0) _ => j == i
  | .stop j (.attrIgnore 0 _) _ => j == i
  | .stop j (.reconnect 0) _ => j == i
  | _ => false

/-- It has not found the client among the attributes. -/
def deaf (i : Nat) : Thread → Bool
  | .stop j (.attrIgnore 0 false) _ => j == i
  | _ => false

/-- The last pass has given up; a session has hung up since the last pass began; and for each
session, the number of threads that are `dying` or `deaf`. -/
structure Ghost where
  gaveUp : Bool
  hungUp : Bool
  dying : Nat → Nat
  deaf : Nat → Nat

def Ghost.init : Ghost := ⟨false, false, fun _ => 0, fun _ => 0⟩

/-- A pass gives up when the attempts are used up and sessions are missing. -/
def givesUp (o : Options) (s : Shared) : Thread → Bool
  | .sessionNum (.after _ _ a) (some []) => decide (o.attempts ≤ a ∧ s.pool.length < o.number)
  | _ => false

/-- `ignoreReconnectKey` is true: the read loop has seen EOF. -/
def sawEOF (s : Shared) (i : Nat) : Bool :=
  (s.sess i).attrs.bind Attrs.ignoreReconnect == some true

/-- `stop` of a session that has been admitted leaves the client alone after EOF. -/
def hangsUp (s : Shared) : Thread → Bool
  | .stop i (.attrIgnore 0 true) _ => s.admitted.any (fun e => e.1 == i) && sawEOF s i
  | _ => false

/-- It is remembered that something has happened, until a pass makes a new start. -/
def noted (s : Shared) (happens : Thread → Bool) (before : Bool) : Thread → Bool
  | .top _ => if s.flight.next.2 then false else before
  | a => before || happens a

def record (o : Options) (s : Shared) (a : Thread) (out : Shared × List Thread) (g : Ghost) :
    Ghost where
  gaveUp := noted s (givesUp o s) g.gaveUp a
  hungUp := noted s (hangsUp s) g.hungUp a
  dying := census dying a out.2 g.dying
  deaf := census deaf a out.2 g.deaf

/-- The client with its ghosts. -/
def client (o : Options) : Prog (Shared × Ghost) Thread := (prog o).withGhost (record o)

def start : Conf (Shared × Ghost) Thread := ⟨(Shared.init, Ghost.init), []⟩

/-! ## The invariant -/

/-- `stop` of a session finds both attributes, and calls `runReconnect` unless there was
EOF. -/
def Attached (x : Option Attrs) : Prop :=
  Linked x ∧ ∃ ignore, x.bind Attrs.ignoreReconnect = some ignore

/-- What holds of the attributes of a session while the client is open and the body of its
first `once` is not through. -/
def While (s : Shared) (i : Nat) (P : Option Attrs → Prop) : Prop :=
  s.flight.done = false → (s.sess i).gen = 0 → (s.sess i).once ≠ .finished → P (s.sess i).attrs

/-- The pool is full, or one of its sessions is dying. -/
def Staffed (o : Options) (x : Shared × Ghost) : Prop :=
  o.number ≤ x.1.pool.countP x.1.active ∨ ∃ i, Admitted x.1 i ∧ 0 < x.2.dying i

/-- Nobody is missing unnoticed. -/
def Covered (o : Options) (x : Shared × Ghost) : Prop :=
  Staffed o x ∨ x.1.flight.reconnectPending = true ∨
    x.1.flight.finished.length < x.1.flight.started ∨ x.2.gaveUp = true ∨ x.2.hungUp = true

structure Healthy (o : Options) (x : Shared × Ghost) : Prop where
  covered : x.1.flight.done = false → x.1.flight.calls ≠ [] → Covered o x
  looped : x.1.flight.reconnectPending = true → x.1.flight.reconnectDone.isSome = true
  reset : ∀ i, (x.1.sess i).gen ≠ 0 → (x.1.sess i).connection = false
  unborn : ∀ i, x.1.nextSess ≤ i → x.1.sess i = Sess.dialed ∧ x.2.deaf i = 0
  attrs : ∀ i, (x.1.sess i).gen = 0 → (x.1.sess i).once ≠ .finished →
    (x.1.sess i).attrs.isSome = true
  attached : ∀ i, Admitted x.1 i → While x.1 i Attached
  heard : ∀ i, Admitted x.1 i → x.1.flight.done = false → x.2.deaf i = 0
  deafInactive : ∀ i, 0 < x.2.deaf i → x.1.active i = false

/-- `sessionNum` has looked at the sessions that are not in `todo` any more: they are active,
or dying, or one of them has hung up. -/
def Counted (x : Shared × Ghost) (todo : List Nat) : Prop :=
  x.2.hungUp = true ∨
    ∀ j ∈ x.1.pool, x.1.active j = true ∨ 0 < x.2.dying j ∨ x.1.pool.count j ≤ todo.count j

/-- The assertion of `connect`. -/
def ConnAttached (x : Shared × Ghost) (i : Nat) : ConnPc → Prop
  | .setIgnore => While x.1 i Linked
  | .run | .check | .onOpen | .lock | .pool | .active => While x.1 i Attached
  | .prune _ | .addSession => While x.1 i Attached ∧ x.2.deaf i = 0
  | _ => True

/-- The assertion of a thread. -/
def At (o : Options) (x : Shared × Ghost) : Thread → Prop
  | .pass _ _ a => a < o.attempts
  | .backoff _ _ a => a < o.attempts
  | .sessionNum _ (some todo) => Counted x todo
  | .connect _ i pc => ConnAttached x i pc
  | .stop i pc _ => pc.generation ≤ (x.1.sess i).gen
  | .gc i _ => Over (x.1.sess i)
  | .clear i => Over (x.1.sess i)
  | _ => True

/-- The ledgers: who runs the body of the first `once` of a session, and the two ghosts. -/
inductive Ledger where
  | body (i : Nat)
  | dying (i : Nat)
  | deaf (i : Nat)

def outline (o : Options) : Outline (Shared × Ghost) Thread Ledger where
  shared := Healthy o
  loc := At o
  val
    | .body i, x => (decide ((x.1.sess i).gen = 0 ∧ (x.1.sess i).once = .running)).toNat
    | .dying i, x => x.2.dying i
    | .deaf i, x => x.2.deaf i
  wt
    | .body i, a => (inBody i 0 a).toNat
    | .dying i, a => (dying i a).toNat
    | .deaf i, a => (deaf i a).toNat

/-- Thread `a` takes a step in a healthy client: all that is known then. -/
structure Acts (o : Options) (x : Shared × Ghost) (a : Thread) (x' : Shared × Ghost)
    (bs : List Thread) : Prop where
  inv : Inv o x.1
  base : Local x.1 a
  booked : Booked o x.1 a
  healthy : Healthy o x
  loc : At o x a
  ledger : ∀ l, ((outline o).wt l a : Int) ≤ (outline o).val l x
  step : (x'.1, bs) ∈ step o x.1 a
  ghost : x'.2 = record o x.1 a (x'.1, bs) x.2

section Acts

variable {o : Options} {x x' : Shared × Ghost} {a b : Thread} {bs : List Thread} {i : Nat}

theorem Acts.effect (h : Acts o x a x' bs) : Effect o x.1 a x'.1 bs :=
  effect_step h.inv h.base h.booked h.step

theorem Acts.frame (h : Acts o x a x' bs) : Frame x.1 a x'.1 :=
  (keeps_step h.inv h.base h.booked h.step).frame

theorem Acts.open_of (h : Acts o x a x' bs) (hopen : x'.1.flight.done = false) :
    x.1.flight.done = false := by
  cases hdone : x.1.flight.done with
  | false => rfl
  | true =>
      rw [h.frame.done hdone] at hopen
      cases hopen

theorem Acts.change (h : Acts o x a x' bs) (hi : i < x.1.nextSess) :
    Change x.1 a i (x'.1.sess i) := by
  rcases h.effect.sess i with hc | ⟨heq, -⟩
  · exact hc
  · omega

/-! ### Sessions -/

private theorem over_inactive (hs : Inv o x.1) (h : Healthy o x) (hover : Over (x.1.sess i)) :
    x.1.active i = false := by
  by_cases hgen : (x.1.sess i).gen = 0
  · exact hs.once i (hover hgen)
  · simp [Shared.active, Sess.active, h.reset i hgen]

theorem Acts.gc_over (h : Acts o x a x' bs) (k : Cont) (ha : a = .gc i k) :
    Over (x.1.sess i) := by
  have hloc := h.loc
  rw [ha] at hloc
  exact hloc

theorem Acts.clear_over (h : Acts o x a x' bs) (ha : a = .clear i) : Over (x.1.sess i) := by
  have hloc := h.loc
  rw [ha] at hloc
  exact hloc

/-- Whoever is in the body of the first `once` keeps the session in its first generation. -/
theorem Acts.body (h : Acts o x a x' bs) (ha : inBody i 0 a = true) :
    (x.1.sess i).gen = 0 ∧ (x.1.sess i).once = .running := by
  have hle := h.ledger (.body i)
  simp only [outline, ha, Bool.toNat_true] at hle
  by_contra hnot
  rw [decide_eq_false hnot] at hle
  simp at hle

theorem linked_setIgnore {y : Sess} {b : Bool} (h : Linked y.attrs) :
    Linked (y.setIgnore b).attrs := by
  unfold Linked Sess.setIgnore at *
  cases hy : y.attrs with
  | none => simp [hy] at h
  | some a => simpa [hy] using h

theorem attached_setIgnore {y : Sess} {b : Bool} (h : Attached y.attrs) :
    Attached (y.setIgnore b).attrs := by
  refine ⟨linked_setIgnore h.1, b, ?_⟩
  obtain ⟨ignore, hsome⟩ := h.2
  cases hy : y.attrs with
  | none => simp [hy] at hsome
  | some a => simp [Sess.setIgnore, hy]

/-- The attributes of a session stay, unless its own `connect` call is at work on them, or
its read loop sees EOF. -/
theorem Acts.while (h : Acts o x a x' bs) (hi : i < x.1.nextSess)
    (hwho : a.connects = some i → Admitted x.1 i) {P : Option Attrs → Prop}
    (heof : P (x.1.sess i).attrs → P ((x.1.sess i).setIgnore true).attrs)
    (hP : While x.1 i P) : While x'.1 i P := by
  intro hopen hgen honce
  have hopen := h.open_of hopen
  obtain ⟨hgen, honce, hattrs⟩ := (h.change hi).attrs_eq h.gc_over hgen honce
  have hold := hP hopen hgen honce
  rcases hattrs with heq | ⟨-, ⟨hc, hno⟩ | hdone⟩ | heq
  · rw [heq]
    exact hold
  · exact absurd (hwho hc) hno
  · rw [hdone] at hopen
    cases hopen
  · rw [heq]
    exact heof hold

/-! ### Ghosts -/

private theorem plain_deaf (b : Thread) (h : plain b = true) : deaf i b = false := by
  cases b with
  | stop j pc k => cases pc <;> first | rfl | cases h
  | _ => rfl

theorem Acts.dying_eq (h : Acts o x a x' bs) :
    x'.2.dying i + (dying i a).toNat = x.2.dying i + bs.countP (dying i) := by
  rw [h.ghost]
  exact census_eq (h.ledger (.dying i)) bs

theorem Acts.deaf_eq (h : Acts o x a x' bs) :
    x'.2.deaf i + (deaf i a).toNat = x.2.deaf i + bs.countP (deaf i) := by
  rw [h.ghost]
  exact census_eq (h.ledger (.deaf i)) bs

/-- A thread comes to be deaf by not finding the client. -/
theorem Acts.deaf_le (h : Acts o x a x' bs) :
    x'.2.deaf i ≤ x.2.deaf i ∨
      ∃ k, a = .stop i (.attrClient 0) k ∧ ¬ Linked (x.1.sess i).attrs := by
  have heq := h.deaf_eq (i := i)
  by_cases hstop : ∃ j pc k, a = .stop j pc k
  · obtain ⟨j, pc, k, rfl⟩ := hstop
    cases stopMove h.step with
    | misses g hno =>
        cases g with
        | succ g =>
            left
            simp [deaf] at heq
            omega
        | zero =>
            by_cases hji : j = i
            · subst hji
              exact Or.inr ⟨k, rfl, hno⟩
            · left
              simp [deaf, hji] at heq
              omega
    | skips | leaves =>
        rw [countP_plain plain_deaf (plain_afterStop _ j k)] at heq
        omega
    | calls g ch =>
        simp only [List.countP_cons, countP_plain plain_deaf (plain_spawned ch)] at heq
        simp [deaf] at heq
        omega
    | _ =>
        simp [deaf] at heq
        omega
  · push Not at hstop
    rw [countP_plain plain_deaf (h.effect.threads hstop)] at heq
    omega

private theorem dying_cases (h : dying i a = true) :
    ∃ k, a = .stop i (.attrClient 0) k ∨ (∃ found, a = .stop i (.attrIgnore 0 found) k) ∨
      a = .stop i (.reconnect 0) k := by
  unfold dying at h
  split at h
  · next j k =>
      rw [eq_of_beq h]
      exact ⟨k, Or.inl rfl⟩
  · next j found k =>
      rw [eq_of_beq h]
      exact ⟨k, Or.inr (Or.inl ⟨found, rfl⟩)⟩
  · next j k =>
      rw [eq_of_beq h]
      exact ⟨k, Or.inr (Or.inr rfl)⟩
  · cases h

theorem noted_of_ne_top {s : Shared} {happens : Thread → Bool} (hne : ∀ ch, a ≠ .top ch) :
    noted s happens true a = true := by
  cases a with
  | top ch => exact absurd rfl (hne ch)
  | _ => rfl

theorem Acts.hungUp (h : Acts o x a x' bs) (hne : ∀ ch, a ≠ .top ch) (hup : x.2.hungUp = true) :
    x'.2.hungUp = true := by
  rw [h.ghost]
  simp only [record, hup]
  exact noted_of_ne_top hne

/-- **A dying session calls `runReconnect`**, if it was admitted and the client is open, or
it has seen EOF. -/
theorem Acts.calls_of_dying (h : Acts o x a x' bs) (hadm : Admitted x.1 i)
    (hopen : x.1.flight.done = false) (ha : dying i a = true) :
    0 < bs.countP (dying i) ∨
      (x.1.mutex = false ∧ x'.1.flight = x.1.flight.runReconnect.1) ∨
      (sawEOF x.1 i = true ∧ x'.2.hungUp = true) := by
  have hdeaf := h.ledger (.deaf i)
  simp only [outline, h.healthy.heard i hadm hopen] at hdeaf
  obtain ⟨k, rfl | ⟨found, rfl⟩ | rfl⟩ := dying_cases ha
  · left
    cases stopMove h.step <;> simp [dying]
  · obtain ⟨hgen, honce⟩ := h.body (i := i) (by simp [inBody])
    have hatt := h.healthy.attached i hadm hopen hgen (by rw [honce]; decide)
    cases found with
    | false => simp [deaf] at hdeaf
    | true =>
        cases stopMove h.step with
        | decides => simp [dying]
        | ignores g found hno =>
            right; right
            obtain ⟨ignore, hsome⟩ := hatt.2
            have heof : sawEOF x.1 i = true := by
              cases ignore with
              | true => exact beq_iff_eq.mpr hsome
              | false => exact absurd hsome (hno rfl)
            obtain ⟨n, hn⟩ := hadm
            have hany : x.1.admitted.any (fun e => e.1 == i) = true :=
              List.any_eq_true.mpr ⟨(i, n), hn, beq_self_eq_true i⟩
            refine ⟨heof, ?_⟩
            rw [h.ghost]
            simp [record, noted, hangsUp, hany, heof]
  · cases stopMove h.step with
    | calls g cs hm hflight => exact Or.inr (Or.inl ⟨hm, hflight⟩)

theorem Acts.dying_or_calls (h : Acts o x a x' bs) (hadm : Admitted x.1 i)
    (hopen : x.1.flight.done = false) (hd : 0 < x.2.dying i) :
    0 < x'.2.dying i ∨ (x.1.mutex = false ∧ x'.1.flight = x.1.flight.runReconnect.1) ∨
      x'.2.hungUp = true := by
  have heq := h.dying_eq (i := i)
  cases ha : dying i a with
  | false =>
      rw [ha, Bool.toNat_false] at heq
      left
      omega
  | true =>
      rw [ha, Bool.toNat_true] at heq
      rcases h.calls_of_dying hadm hopen ha with hcount | hcalls | ⟨-, hup⟩
      · left
        omega
      · exact Or.inr (Or.inl hcalls)
      · exact Or.inr (Or.inr hup)

/-- An active session that stops being active is dying. -/
theorem Acts.active_or_dying (h : Acts o x a x' bs) (hi : i < x.1.nextSess)
    (hact : x.1.active i = true) : x'.1.active i = true ∨ 0 < x'.2.dying i := by
  have hover := over_inactive (i := i) h.inv h.healthy
  rcases (h.change hi).active h.gc_over h.clear_over hover hact with hact' | ⟨g, k, rfl⟩
  · exact Or.inl hact'
  · right
    have hgen : (x.1.sess i).gen = 0 := by
      by_contra hne
      simp [Shared.active, Sess.active, h.healthy.reset i hne] at hact
    have hg : g ≤ (x.1.sess i).gen := h.loc
    obtain rfl : g = 0 := by omega
    have heq := h.dying_eq (i := i)
    cases stopMove h.step
    simp [dying] at heq
    omega

/-! ### Nobody is missing unnoticed -/

theorem runReconnect_pending {f : Flight} (h : f.done = false) :
    f.runReconnect.1.reconnectPending = true := by
  unfold Flight.runReconnect
  rw [h]
  simp only [Bool.false_eq_true, if_false]
  split <;> rfl

theorem Acts.admitted (h : Acts o x a x' bs) (hadm : Admitted x.1 i) : Admitted x'.1 i :=
  h.frame.admitted_mono hadm

/-- The number of active sessions of the pool does not go down, unless one of them dies. -/
theorem Acts.count_or_dying (h : Acts o x a x' bs) (hopen : x'.1.flight.done = false) :
    x.1.pool.countP x.1.active ≤ x'.1.pool.countP x'.1.active ∨
      ∃ i, Admitted x'.1 i ∧ 0 < x'.2.dying i := by
  by_cases hdying : ∃ i ∈ x.1.pool, 0 < x'.2.dying i
  · obtain ⟨i, hi, hd⟩ := hdying
    exact Or.inr ⟨i, h.admitted (h.inv.poolAdmitted i hi), hd⟩
  · left
    push Not at hdying
    have hmono : ∀ i ∈ x.1.pool, x.1.active i = true → x'.1.active i = true := by
      intro i hi hact
      have hlt := h.inv.lt_of_admitted (h.inv.poolAdmitted i hi)
      rcases h.active_or_dying hlt hact with hact' | hd
      · exact hact'
      · have := hdying i hi
        omega
    have hle : x.1.pool.countP x.1.active ≤ x.1.pool.countP x'.1.active :=
      List.countP_mono_left hmono
    cases h.effect.pool with
    | same heq =>
        rw [heq]
        exact hle
    | erase j hj heq =>
        have hcount : (x.1.pool.erase j).countP x.1.active = x.1.pool.countP x.1.active := by
          rw [List.countP_erase]
          simp [hj]
        rw [heq, ← hcount]
        exact List.countP_mono_left fun i hi => hmono i (List.mem_of_mem_erase hi)
    | cons k j ha heq =>
        rw [heq, List.countP_cons]
        omega
    | closed hdone =>
        rw [hdone] at hopen
        cases hopen

theorem Acts.staffed (h : Acts o x a x' bs) (hopen : x'.1.flight.done = false)
    (hst : Staffed o x) :
    Staffed o x' ∨ x'.1.flight.reconnectPending = true ∨ x'.2.hungUp = true := by
  rcases hst with hcount | ⟨i, hadm, hd⟩
  · left
    rcases h.count_or_dying hopen with hle | hdying
    · exact Or.inl (Nat.le_trans hcount hle)
    · exact Or.inr hdying
  · have hold := h.open_of hopen
    rcases h.dying_or_calls hadm hold hd with hd' | ⟨-, hflight⟩ | hup
    · exact Or.inl (Or.inr ⟨i, h.admitted hadm, hd'⟩)
    · right; left
      rw [hflight]
      exact runReconnect_pending hold
    · exact Or.inr (Or.inr hup)

theorem Acts.covered_of_staffed (h : Acts o x a x' bs) (hopen : x'.1.flight.done = false)
    (hst : Staffed o x) : Covered o x' := by
  rcases h.staffed hopen hst with hst' | hpend | hup
  · exact Or.inl hst'
  · exact Or.inr (Or.inl hpend)
  · exact Or.inr (Or.inr (Or.inr (Or.inr hup)))

theorem Counted.staffed (hs : Inv o x.1) (h : Counted x []) (hfull : o.number ≤ x.1.pool.length) :
    Staffed o x ∨ x.2.hungUp = true := by
  rcases h with hup | h
  · exact Or.inr hup
  left
  by_cases hdying : ∃ j ∈ x.1.pool, 0 < x.2.dying j
  · obtain ⟨j, hj, hd⟩ := hdying
    exact Or.inr ⟨j, hs.poolAdmitted j hj, hd⟩
  · left
    push Not at hdying
    have hall : ∀ j ∈ x.1.pool, x.1.active j = true := by
      intro j hj
      have hpos := List.count_pos_iff.mpr hj
      have hno := hdying j hj
      rcases h j hj with hact | hd | hle
      · exact hact
      · omega
      · rw [List.count_nil] at hle
        omega
    rw [List.countP_eq_length.mpr hall]
    exact hfull

/-- A pass ends with a full pool, or gives up, or a session has hung up. -/
theorem Acts.ends (h : Acts o x a x' bs) (hne : ∀ ch, a ≠ .top ch)
    (hopen : x.1.flight.done = false) (hends : Ends o x.1 a) :
    Staffed o x ∨ x'.2.gaveUp = true ∨ x'.2.hungUp = true := by
  have hfull : Counted x [] → o.number ≤ x.1.pool.length →
      Staffed o x ∨ x'.2.gaveUp = true ∨ x'.2.hungUp = true := by
    intro hc hle
    rcases hc.staffed h.inv hle with hst | hup
    · exact Or.inl hst
    · exact Or.inr (Or.inr (h.hungUp hne hup))
  have hclosed : x.1.flight.done ≠ true := by simp [hopen]
  unfold Ends at hends
  split at hends
  · next ch n a =>
      have hloc : a < o.attempts := h.loc
      rcases hends with hdone | hle
      · exact absurd hdone hclosed
      · omega
  · exact hfull h.loc hends
  · next ch n a =>
      by_cases hle : o.number ≤ x.1.pool.length
      · exact hfull h.loc hle
      · right; left
        have hlast : o.attempts ≤ a ∧ x.1.pool.length < o.number :=
          ⟨hends.resolve_left hle, Nat.lt_of_not_le hle⟩
        rw [h.ghost]
        simp [record, noted, givesUp, hlast]
  · exact absurd hends hclosed

/-- At the top of the loop, a pending trigger becomes a pass. -/
theorem Acts.covered_top {ch : Nat} (h : Acts o x (.top ch) x' bs)
    (hall : x.1.flight.finished.length = x.1.flight.started)
    (hopen : x'.1.flight.done = false) (hcalls : x'.1.flight.calls ≠ []) : Covered o x' := by
  have hold := h.open_of hopen
  have hflight : x'.1.flight = x.1.flight.next.1 := by
    have hstep := h.step
    simp only [ClientPool.step] at hstep
    split at hstep
    · cases hstep
    · rw [(Prod.ext_iff.mp (List.mem_singleton.mp hstep)).1]
      rfl
  cases hpend : x.1.flight.reconnectPending with
  | true =>
      right; right; left
      rw [hflight]
      simp [Flight.next, hold, hpend, hall]
  | false =>
      have hcalls' : x.1.flight.calls ≠ [] := by
        simpa [hflight, Flight.next, hold, hpend] using hcalls
      rcases h.healthy.covered hold hcalls' with hst | hp | hlt | hgave | hup
      · exact h.covered_of_staffed hopen hst
      · rw [hpend] at hp
        cases hp
      · omega
      · right; right; right; left
        rw [h.ghost]
        simp [record, noted, Flight.next, hold, hpend, hgave]
      · right; right; right; right
        rw [h.ghost]
        simp [record, noted, Flight.next, hold, hpend, hup]

/-- Any other thread leaves the loop alone, triggers it, or ends a pass. -/
theorem Acts.covered_ne_top (h : Acts o x a x' bs) (hne : ∀ ch, a ≠ .top ch)
    (hopen : x'.1.flight.done = false) (hcalls : x'.1.flight.calls ≠ []) : Covered o x' := by
  have hold := h.open_of hopen
  have hst : Staffed o x → Covered o x' := h.covered_of_staffed hopen
  have hkeep : x'.1.flight.calls = x.1.flight.calls →
      x'.1.flight.reconnectPending = x.1.flight.reconnectPending →
      x'.1.flight.finished = x.1.flight.finished →
      x'.1.flight.started = x.1.flight.started → Covered o x' := by
    intro hcall hpend hfin hstart
    rw [hcall] at hcalls
    rcases h.healthy.covered hold hcalls with hst' | hp | hlt | hgave | hup
    · exact hst hst'
    · exact Or.inr (Or.inl (hpend.trans hp))
    · right; right; left
      rw [hfin, hstart]
      exact hlt
    · right; right; right; left
      rw [h.ghost]
      simp only [record, hgave]
      exact noted_of_ne_top hne
    · exact Or.inr (Or.inr (Or.inr (Or.inr (h.hungUp hne hup))))
  cases h.effect.flight with
  | same heq => exact hkeep (by rw [heq]) (by rw [heq]) (by rw [heq]) (by rw [heq])
  | closeChan ch heq =>
      exact hkeep (by rw [heq]; rfl) (by rw [heq]; rfl) (by rw [heq]; rfl) (by rw [heq]; rfl)
  | trigger hm heq =>
      right; left
      rw [heq]
      exact runReconnect_pending hold
  | top ch ha => exact absurd ha (hne ch)
  | finish n hends =>
      rcases h.ends hne hold hends with hst' | hgave
      · exact hst hst'
      · exact Or.inr (Or.inr (Or.inr hgave))
  | stop heq =>
      rw [heq, Flight.stop_done] at hopen
      cases hopen

/-- What the reconnect protocol knows of a thread. -/
def Known (o : Options) (s : Shared) (a : Thread) : Prop :=
  (flightSimulation o).Knows SingleFlight.outline s a

theorem Acts.covered (h : Acts o x a x' bs) (hK : Known o x.1 a)
    (hopen : x'.1.flight.done = false) (hcalls : x'.1.flight.calls ≠ []) : Covered o x' := by
  by_cases htop : ∃ ch, a = .top ch
  · obtain ⟨ch, rfl⟩ := htop
    have hb : SingleFlight.Booked x.1.flight (.top ch) :=
      (hK.2 (.top ch) (List.mem_singleton.mpr rfl)).2
    exact h.covered_top hb.all_finished.2 hopen hcalls
  · push Not at htop
    exact h.covered_ne_top htop hopen hcalls

/-! ### The rest of the invariant -/

theorem Acts.looped (h : Acts o x a x' bs) (hpend : x'.1.flight.reconnectPending = true) :
    x'.1.flight.reconnectDone.isSome = true := by
  have hold := h.healthy.looped
  cases h.effect.flight with
  | same heq =>
      rw [heq] at hpend ⊢
      exact hold hpend
  | closeChan ch heq =>
      rw [heq] at hpend ⊢
      exact hold hpend
  | trigger hm heq =>
      rw [heq] at hpend ⊢
      unfold Flight.runReconnect at hpend ⊢
      split
      · next hdone =>
          rw [if_pos hdone] at hpend
          exact hold hpend
      · split
        · next ch hch => simp [hch]
        · rfl
  | top ch ha heq =>
      rw [heq] at hpend ⊢
      unfold Flight.next at hpend ⊢
      split
      · next hdone =>
          rw [if_pos hdone] at hpend
          cases hpend
      · next hdone =>
          rw [if_neg hdone] at hpend
          split
          · next hp => exact hold hp
          · next hp =>
              rw [if_neg hp] at hpend
              exact absurd hpend hp
  | finish n hends heq =>
      rw [heq] at hpend ⊢
      exact hold hpend
  | stop heq =>
      rw [heq] at hpend ⊢
      unfold Flight.stop at hpend ⊢
      split
      · next hdone =>
          rw [if_pos hdone] at hpend
          exact hold hpend
      · next hdone =>
          rw [if_neg hdone] at hpend
          exact hold hpend

/-- A session that is not heard has not found the client; it was not admitted. -/
theorem Acts.deaf_while (h : Acts o x a x' bs) (hopen : x.1.flight.done = false)
    (hatt : While x.1 i Attached) (hzero : x.2.deaf i = 0) : x'.2.deaf i = 0 := by
  rcases h.deaf_le (i := i) with hle | ⟨k, rfl, hno⟩
  · omega
  · obtain ⟨hgen, honce⟩ := h.body (i := i) (by simp [inBody])
    exact absurd (hatt hopen hgen (by rw [honce]; decide)).1 hno

theorem Acts.inactive (h : Acts o x a x' bs) (hi : i < x.1.nextSess)
    (hact : x.1.active i = false) : x'.1.active i = false :=
  (h.frame.sess i hi).closed hact

theorem Acts.admitted_cases (h : Acts o x a x' bs) (hadm : Admitted x'.1 i) :
    Admitted x.1 i ∨ ∃ k, a = .connect k i .addSession ∧ x'.1.sess = x.1.sess := by
  obtain ⟨n, hn⟩ := hadm
  rcases h.effect.admitted with heq | ⟨k, j, ha, hsess, heq⟩
  · rw [heq] at hn
    exact Or.inl ⟨n, hn⟩
  · rw [heq] at hn
    rcases List.mem_cons.mp hn with hij | hn
    · cases hij
      exact Or.inr ⟨k, ha, hsess⟩
    · exact Or.inl ⟨n, hn⟩

/-- **Step lemma.**  The client stays healthy. -/
theorem Acts.healthy' (h : Acts o x a x' bs) (hK : Known o x.1 a) : Healthy o x' where
  covered := h.covered hK
  looped := h.looped
  reset i hgen := by
    rcases h.effect.sess i with hc | ⟨-, heq⟩
    · exact hc.reset (h.healthy.reset i) hgen
    · rw [heq] at hgen
      exact absurd rfl hgen
  unborn i hi := by
    have hle := h.frame.nextSess
    obtain ⟨hsess, hdeaf⟩ := h.healthy.unborn i (Nat.le_trans hle hi)
    constructor
    · rcases h.effect.sess i with hc | ⟨-, heq⟩
      · rcases hc.lt with heq | hlt
        · rw [heq, hsess]
        · omega
      · exact heq
    · rcases h.deaf_le (i := i) with hle' | ⟨k, rfl, -⟩
      · omega
      · have hlt := h.base.1
        omega
  attrs i hgen honce := by
    rcases h.effect.sess i with hc | ⟨-, heq⟩
    · obtain ⟨hgen, honce, hattrs⟩ := hc.attrs_eq h.gc_over hgen honce
      have hold := h.healthy.attrs i hgen honce
      rcases hattrs with heq | ⟨⟨f, heq⟩, -⟩ | heq
      · rw [heq]
        exact hold
      · rw [heq, Option.isSome_map]
        exact hold
      · rw [heq, Sess.setIgnore, Option.isSome_map]
        exact hold
    · rw [heq]
      rfl
  attached i hadm := by
    rcases h.admitted_cases hadm with hold | ⟨k, rfl, hsess⟩
    · exact h.while (h.inv.lt_of_admitted hold) (fun _ => hold) attached_setIgnore
        (h.healthy.attached i hold)
    · intro hopen
      rw [hsess]
      exact h.loc.1 (h.open_of hopen)
  heard i hadm hopen := by
    have hopen := h.open_of hopen
    rcases h.admitted_cases hadm with hold | ⟨k, rfl, hsess⟩
    · exact h.deaf_while hopen (h.healthy.attached i hold) (h.healthy.heard i hold hopen)
    · exact h.deaf_while hopen h.loc.1 h.loc.2
  deafInactive i hpos := by
    rcases h.deaf_le (i := i) with hle | ⟨k, rfl, -⟩
    · have hdeaf : 0 < x.2.deaf i := by omega
      have hi : i < x.1.nextSess := by
        by_contra hge
        have := (h.healthy.unborn i (Nat.le_of_not_lt hge)).2
        omega
      exact h.inactive hi (h.healthy.deafInactive i hdeaf)
    · exact h.inactive h.base.1 h.base.2.1

end Acts

end Getty.Transport.ClientPool.Healing
