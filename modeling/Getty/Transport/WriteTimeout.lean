import Getty.Verified.ThreadPool

/-!
# The write timeout of a connection

`WritePkg` with a timeout of its own saves the connection's write timeout, overwrites it,
sends, and restores what it saved.  It does so under the exclusive `packetLock`, so that
two such calls do not disturb each other.  `SetWriteTimeout` stores the same field without
that lock: when it comes between the save and the restore, the restore takes it back.

Two fields are ghosts.  `saved` is the value that a call has saved and not yet restored,
and `log` lists the `SetWriteTimeout` calls in the order of their stores, each with the
value of `saved` at that moment.

## Main results

* `outline_valid` — the invariant survives every step.
* `write_timeout_kept_iff` — when the last `SetWriteTimeout` is still in force at the end.
-/

namespace Getty.Transport.WriteTimeout

open Getty.Verified.ThreadPool

/-! ## The program -/

/-- A call of `SetWriteTimeout`, and what a `WritePkg` had saved when it stored. -/
structure SetCall where
  value : Int
  saved : Option Int
  deriving Repr, DecidableEq

/-- The timeouts of the connection and the state of `packetLock`. -/
structure Shared where
  wTimeout : Int
  rTimeout : Int
  locked : Bool
  readers : Nat
  saved : Option Int
  log : List SetCall
  deriving Repr, DecidableEq

/-- Where a `WritePkg` is; `orig` is `origWriteTimeout` of a call with a timeout. -/
inductive WritePc where
  | enter
  | lock
  | conn
  | save
  | store (orig : Int)
  | storeRead (orig : Int)
  | send (orig : Option Int)
  | restore (orig : Int)
  | restoreRead (orig : Int)
  | unlock
  deriving Repr, DecidableEq

inductive Thread where
  | setWriteTimeout (wTimeout : Int)
  | setRead (wTimeout : Int)
  | writePkg (timeout : Int) (pc : WritePc)
  deriving Repr, DecidableEq

/-- `c.wTimeout.Store`. -/
def Shared.store (s : Shared) (wTimeout : Int) : Shared := { s with wTimeout := wTimeout }

/-- The second half of `gettyConn.SetWriteTimeout`. -/
def Shared.storeRead (s : Shared) (wTimeout : Int) : Shared :=
  { s with rTimeout := if s.rTimeout = 0 then wTimeout else s.rTimeout }

/-- `WritePkg`.  A call may leave before the lock, when the session is closed or the package
cannot be encoded, and after it, when the connection is gone.  Whatever becomes of the send,
a panic included, the deferred functions restore the timeout and unlock. -/
def writeStep (s : Shared) (timeout : Int) : WritePc → List (Shared × List Thread)
  | .enter => [(s, []), (s, [.writePkg timeout .lock])]
  | .lock =>
      if 0 < timeout then
        if s.locked = false ∧ s.readers = 0 then
          [({ s with locked := true }, [.writePkg timeout .conn])]
        else []
      else if s.locked = false then
        [({ s with readers := s.readers + 1 }, [.writePkg timeout .conn])]
      else []
  | .conn =>
      [(s, [.writePkg timeout .unlock]),
        (s, [.writePkg timeout (if 0 < timeout then .save else .send none)])]
  | .save => [({ s with saved := some s.wTimeout }, [.writePkg timeout (.store s.wTimeout)])]
  | .store orig => [(s.store timeout, [.writePkg timeout (.storeRead orig)])]
  | .storeRead orig => [(s.storeRead timeout, [.writePkg timeout (.send (some orig))])]
  | .send (some orig) => [(s, [.writePkg timeout (.restore orig)])]
  | .send none => [(s, [.writePkg timeout .unlock])]
  | .restore orig =>
      -- the deferred call panics for a value below 1, and the unlock still follows
      if orig < 1 then [({ s with saved := none }, [.writePkg timeout .unlock])]
      else [({ s.store orig with saved := none }, [.writePkg timeout (.restoreRead orig)])]
  | .restoreRead orig => [(s.storeRead orig, [.writePkg timeout .unlock])]
  | .unlock =>
      if 0 < timeout then [({ s with locked := false }, [])]
      else [({ s with readers := s.readers - 1 }, [])]

/-- `SetWriteTimeout` panics for a value below 1. -/
def step (s : Shared) : Thread → List (Shared × List Thread)
  | .setWriteTimeout wTimeout =>
      if wTimeout < 1 then [(s, [])]
      else
        [({ s.store wTimeout with log := s.log ++ [⟨wTimeout, s.saved⟩] }, [.setRead wTimeout])]
  | .setRead wTimeout => [(s.storeRead wTimeout, [])]
  | .writePkg timeout pc => writeStep s timeout pc

def prog : Prog Shared Thread where
  entry _
    | .setWriteTimeout _ => true
    | .writePkg _ .enter => true
    | _ => false
  step := step

/-- An idle connection. -/
def initial (wTimeout rTimeout : Int) : Conf Shared Thread :=
  ⟨⟨wTimeout, rTimeout, false, 0, none, []⟩, []⟩

/-! ## The invariant -/

/-- The value that is, or is going to be restored as, the connection's write timeout: that
of the last `SetWriteTimeout`, unless a call had saved the one before. -/
def settled (init : Int) (log : List SetCall) : Int :=
  match log.getLast? with
  | none => init
  | some call => call.saved.getD call.value

private theorem settled_append (init : Int) (log : List SetCall) (call : SetCall) :
    settled init (log ++ [call]) = call.saved.getD call.value := by
  simp [settled]

/-- What holds of the connection in every state. -/
structure Inv (init : Int) (s : Shared) : Prop where
  positive : 0 < settled init s.log
  outside : s.saved = none → s.wTimeout = settled init s.log
  inside : ∀ orig, s.saved = some orig → orig = settled init s.log
  idle : s.locked = false → s.saved = none

/-- The thread holds `packetLock` exclusively. -/
def Thread.holdsLock : Thread → Bool
  | .writePkg _ .enter => false
  | .writePkg _ .lock => false
  | .writePkg timeout _ => decide (0 < timeout)
  | _ => false

/-- What a thread knows: between its save and its restore a call with a timeout has `orig`
at hand. -/
def Local (s : Shared) : Thread → Prop
  | .writePkg timeout .conn => 0 < timeout → s.saved = none
  | .writePkg timeout .save => 0 < timeout ∧ s.saved = none
  | .writePkg timeout (.store orig) => 0 < timeout ∧ s.saved = some orig
  | .writePkg timeout (.storeRead orig) => 0 < timeout ∧ s.saved = some orig
  | .writePkg timeout (.send (some orig)) => 0 < timeout ∧ s.saved = some orig
  | .writePkg timeout (.send none) => ¬ 0 < timeout
  | .writePkg timeout (.restore orig) => 0 < timeout ∧ s.saved = some orig
  | .writePkg timeout (.restoreRead _) => 0 < timeout ∧ s.saved = none
  | .writePkg timeout .unlock => 0 < timeout → s.saved = none
  | _ => True

def outline (init : Int) : Outline Shared Thread Unit where
  shared := Inv init
  loc := Local
  val _ s := s.locked.toNat
  wt _ th := th.holdsLock.toNat

variable {init : Int} {s s' : Shared} {a b : Thread} {bs : List Thread}

/-- A thread without the exclusive lock does not look at what is saved. -/
theorem local_of_not_holdsLock (h : b.holdsLock = false) (hloc : Local s b) : Local s' b := by
  cases b with
  | setWriteTimeout w => exact hloc
  | setRead w => exact hloc
  | writePkg timeout pc =>
      cases pc with
      | enter => exact hloc
      | lock => exact hloc
      | conn => exact fun hpos => absurd hpos (of_decide_eq_false h)
      | unlock => exact fun hpos => absurd hpos (of_decide_eq_false h)
      | send orig =>
          cases orig with
          | none => exact hloc
          | some orig => exact absurd hloc.1 (of_decide_eq_false h)
      | save => exact absurd hloc.1 (of_decide_eq_false h)
      | store orig => exact absurd hloc.1 (of_decide_eq_false h)
      | storeRead orig => exact absurd hloc.1 (of_decide_eq_false h)
      | restore orig => exact absurd hloc.1 (of_decide_eq_false h)
      | restoreRead orig => exact absurd hloc.1 (of_decide_eq_false h)

/-- What every thread knows depends on what is saved only. -/
private theorem local_of_saved (hsaved : s'.saved = s.saved) (hloc : Local s b) : Local s' b := by
  unfold Local at hloc ⊢
  rw [hsaved]
  exact hloc

/-! ## What a step does -/

/-- The outcome `s'`, `bs` of a step of `a` keeps the invariant and the ledger, and leaves
what is saved alone if `a` does not hold the lock. -/
structure Keeps (init : Int) (s : Shared) (a : Thread) (s' : Shared) (bs : List Thread) :
    Prop where
  saved : a.holdsLock = false → s'.saved = s.saved
  keeps : (outline init).Keeps s a s' bs

/-- The thread goes on, without a change of the lock. -/
theorem keeps_goOn (hinv : Inv init s') (hloc : Local s' b) (hlocked : s'.locked = s.locked)
    (hholds : b.holdsLock = a.holdsLock) (hsaved : a.holdsLock = false → s'.saved = s.saved) :
    Keeps init s a s' [b] :=
  ⟨hsaved, Outline.keeps_one hinv hloc fun _ => by simp only [outline, hlocked, hholds]⟩

/-- A thread without the lock ends. -/
theorem keeps_end (hinv : Inv init s') (hlocked : s'.locked = s.locked)
    (hholds : a.holdsLock = false) (hsaved : s'.saved = s.saved) : Keeps init s a s' [] :=
  ⟨fun _ => hsaved, Outline.keeps_end hinv fun _ => by simp [outline, hlocked, hholds]⟩

/-- A thread that holds the lock finds it locked. -/
private theorem locked_of_holds (hbook : (a.holdsLock.toNat : Int) ≤ s.locked.toNat)
    (h : a.holdsLock = true) : s.locked = true := by
  rw [h] at hbook
  cases hlocked : s.locked with
  | true => rfl
  | false =>
      rw [hlocked] at hbook
      cases hbook

/-- The other fields do not matter. -/
theorem inv_of_core (hinv : Inv init s) (hw : s'.wTimeout = s.wTimeout)
    (hsaved : s'.saved = s.saved) (hlog : s'.log = s.log) (hlocked : s'.locked = s.locked) :
    Inv init s' := by
  refine ⟨?_, ?_, ?_, ?_⟩
  · rw [hlog]
    exact hinv.positive
  · rw [hsaved, hw, hlog]
    exact hinv.outside
  · rw [hsaved, hlog]
    exact hinv.inside
  · rw [hlocked, hsaved]
    exact hinv.idle

theorem inv_storeRead (hinv : Inv init s) (w : Int) : Inv init (s.storeRead w) :=
  inv_of_core hinv rfl rfl rfl rfl

/-- While a value is saved the field may hold anything. -/
private theorem inv_store {orig w : Int} (hinv : Inv init s) (hsaved : s.saved = some orig) :
    Inv init (s.store w) := by
  refine ⟨hinv.positive, fun hnone => ?_, hinv.inside, hinv.idle⟩
  have hnone' : s.saved = none := hnone
  rw [hsaved] at hnone'
  cases hnone'

/-- **The save.**  Outside of any other call the field holds the settled value. -/
theorem inv_save (hinv : Inv init s) (hsaved : s.saved = none) (hlocked : s.locked = true) :
    Inv init { s with saved := some s.wTimeout } := by
  refine ⟨hinv.positive, by simp, fun orig horig => ?_, fun hfree => ?_⟩
  · cases horig
    exact hinv.outside hsaved
  · have hfree' : s.locked = false := hfree
    rw [hlocked] at hfree'
    cases hfree'

/-- **The restore.** -/
theorem inv_restore {orig : Int} (hinv : Inv init s) (hsaved : s.saved = some orig) :
    Inv init { s.store orig with saved := none } :=
  ⟨hinv.positive, fun _ => hinv.inside orig hsaved, by simp, fun _ => rfl⟩

/-- **The set.**  It settles its own value, or the saved one. -/
theorem inv_set {w : Int} (hinv : Inv init s) (hw : 0 < w) :
    Inv init { s.store w with log := s.log ++ [⟨w, s.saved⟩] } := by
  refine ⟨?_, fun hnone => ?_, fun orig horig => ?_, hinv.idle⟩
  · rw [settled_append]
    cases hsaved : s.saved with
    | none => exact hw
    | some orig =>
        show 0 < orig
        rw [hinv.inside orig hsaved]
        exact hinv.positive
  · have hnone' : s.saved = none := hnone
    rw [settled_append, hnone']
    rfl
  · have horig' : s.saved = some orig := horig
    rw [settled_append, horig']
    rfl

/-- **Step lemma** for `WritePkg`. -/
theorem writeStep_keeps {timeout : Int} {pc : WritePc} (hinv : Inv init s)
    (hloc : Local s (.writePkg timeout pc))
    (hbook : ((Thread.writePkg timeout pc).holdsLock.toNat : Int) ≤ s.locked.toNat)
    (h : (s', bs) ∈ writeStep s timeout pc) : Keeps init s (.writePkg timeout pc) s' bs := by
  cases pc with
  | enter =>
      simp only [writeStep, List.mem_cons, List.not_mem_nil, or_false, Prod.mk.injEq] at h
      rcases h with ⟨rfl, rfl⟩ | ⟨rfl, rfl⟩
      · exact keeps_end hinv rfl rfl rfl
      · exact keeps_goOn hinv True.intro rfl rfl (fun _ => rfl)
  | lock =>
      simp only [writeStep] at h
      split at h
      · next hpos =>
          split at h
          · next hfree =>
              cases List.mem_singleton.mp h
              refine ⟨fun _ => rfl, Outline.keeps_one
                ⟨hinv.positive, hinv.outside, hinv.inside, by simp⟩
                (fun _ => hinv.idle hfree.1) fun _ => ?_⟩
              simp [outline, Thread.holdsLock, hpos, hfree.1]
          · cases h
      · next hpos =>
          split at h
          · cases List.mem_singleton.mp h
            refine keeps_goOn (inv_of_core hinv rfl rfl rfl rfl) ?_ rfl ?_ (fun _ => rfl)
            · exact fun hp => absurd hp hpos
            · exact decide_eq_false hpos
          · cases h
  | conn =>
      simp only [writeStep, List.mem_cons, List.not_mem_nil, or_false, Prod.mk.injEq] at h
      rcases h with ⟨rfl, rfl⟩ | ⟨rfl, rfl⟩
      · exact keeps_goOn hinv hloc rfl rfl (fun _ => rfl)
      · by_cases hpos : 0 < timeout
        · rw [if_pos hpos]
          exact keeps_goOn hinv ⟨hpos, hloc hpos⟩ rfl rfl (fun _ => rfl)
        · rw [if_neg hpos]
          exact keeps_goOn hinv hpos rfl rfl (fun _ => rfl)
  | save =>
      obtain ⟨hpos, hsaved⟩ := hloc
      have hholds : (Thread.writePkg timeout .save).holdsLock = true := decide_eq_true hpos
      cases List.mem_singleton.mp h
      refine keeps_goOn (inv_save hinv hsaved (locked_of_holds hbook hholds)) ⟨hpos, rfl⟩ rfl
        rfl ?_
      rw [hholds]
      intro hcontra
      cases hcontra
  | store orig =>
      cases List.mem_singleton.mp h
      exact keeps_goOn (inv_store hinv hloc.2) hloc rfl rfl (fun _ => rfl)
  | storeRead orig =>
      cases List.mem_singleton.mp h
      exact keeps_goOn (inv_storeRead hinv timeout) hloc rfl rfl (fun _ => rfl)
  | send orig =>
      cases orig with
      | none =>
          cases List.mem_singleton.mp h
          exact keeps_goOn hinv (fun hpos => absurd hpos hloc) rfl rfl (fun _ => rfl)
      | some orig =>
          cases List.mem_singleton.mp h
          exact keeps_goOn hinv hloc rfl rfl (fun _ => rfl)
  | restore orig =>
      obtain ⟨hpos, hsaved⟩ := hloc
      have horig : ¬ orig < 1 := by
        have hsettled := hinv.inside orig hsaved
        have := hinv.positive
        omega
      have hholds : (Thread.writePkg timeout (.restore orig)).holdsLock = true :=
        decide_eq_true hpos
      simp only [writeStep, if_neg horig] at h
      cases List.mem_singleton.mp h
      refine keeps_goOn (inv_restore hinv hsaved) ⟨hpos, rfl⟩ rfl rfl ?_
      rw [hholds]
      intro hcontra
      cases hcontra
  | restoreRead orig =>
      cases List.mem_singleton.mp h
      exact keeps_goOn (inv_storeRead hinv orig) (fun _ => hloc.2) rfl rfl (fun _ => rfl)
  | unlock =>
      simp only [writeStep] at h
      split at h
      · next hpos =>
          have hholds : (Thread.writePkg timeout .unlock).holdsLock = true := decide_eq_true hpos
          have hlocked := locked_of_holds hbook hholds
          cases List.mem_singleton.mp h
          refine ⟨fun _ => rfl, Outline.keeps_end
            ⟨hinv.positive, hinv.outside, hinv.inside, fun _ => hloc hpos⟩ fun _ => ?_⟩
          simp [outline, hholds, hlocked]
      · next hpos =>
          cases List.mem_singleton.mp h
          exact keeps_end (inv_of_core hinv rfl rfl rfl rfl) rfl (decide_eq_false hpos) rfl

/-- **Step lemma.** -/
theorem step_keeps (hinv : Inv init s) (hloc : Local s a)
    (hbook : (a.holdsLock.toNat : Int) ≤ s.locked.toNat) (h : (s', bs) ∈ step s a) :
    Keeps init s a s' bs := by
  cases a with
  | setWriteTimeout w =>
      simp only [step] at h
      split at h
      · cases List.mem_singleton.mp h
        exact keeps_end hinv rfl rfl rfl
      · cases List.mem_singleton.mp h
        exact keeps_goOn (inv_set hinv (by omega)) True.intro rfl rfl (fun _ => rfl)
  | setRead w =>
      cases List.mem_singleton.mp h
      exact keeps_end (inv_storeRead hinv w) rfl rfl rfl
  | writePkg timeout pc => exact writeStep_keeps hinv hloc hbook h

theorem outline_valid (init : Int) : (outline init).Valid prog where
  entry := by
    intro s a _ hentry
    cases a with
    | setWriteTimeout w => exact ⟨True.intro, fun _ => rfl⟩
    | setRead w => cases hentry
    | writePkg timeout pc =>
        cases pc with
        | enter => exact ⟨True.intro, fun _ => rfl⟩
        | _ => cases hentry
  own := by
    intro s a s' bs hinv hloc hbook h
    exact (step_keeps hinv hloc (hbook ()) h).keeps
  other := by
    intro s a b s' bs hinv hloc hlocb hbook h
    have hpair : (a.holdsLock.toNat : Int) + b.holdsLock.toNat ≤ s.locked.toNat := hbook ()
    cases hholds : a.holdsLock with
    | false =>
        have hown : (a.holdsLock.toNat : Int) ≤ s.locked.toNat := by omega
        exact local_of_saved ((step_keeps hinv hloc hown h).saved hholds) hlocb
    | true =>
        -- two threads cannot hold the lock
        have hother : b.holdsLock = false := by
          have hle := Bool.toNat_le s.locked
          rw [hholds] at hpair
          cases hb : b.holdsLock with
          | false => rfl
          | true =>
              rw [hb] at hpair
              simp only [Bool.toNat_true] at hpair
              omega
        exact local_of_not_holdsLock hother hlocb

/-! ## At rest -/

/-- **The last `SetWriteTimeout` is kept** exactly when it did not fall between the save and
the restore of a `WritePkg`, or set what that call had saved.  Without a `SetWriteTimeout`
the write timeout is the initial one. -/
theorem write_timeout_kept_iff (init rTimeout : Int) (hinit : 0 < init)
    (c : Conf Shared Thread) (hreach : prog.Reaches (initial init rTimeout) c)
    (hrest : c.pool = []) :
    (c.shared.log = [] → c.shared.wTimeout = init) ∧
      ∀ call, c.shared.log.getLast? = some call →
        (c.shared.wTimeout = call.value ↔
          call.saved = none ∨ call.saved = some call.value) := by
  have h0 : (outline init).Holds (initial init rTimeout) :=
    ⟨⟨hinit, fun _ => rfl, by simp [initial], fun _ => rfl⟩, by simp [initial], fun _ => rfl⟩
  have hholds := (outline_valid init).holds_run h0 hreach
  have hfree : c.shared.locked = false := by
    have hledger : (c.shared.locked.toNat : Int) = total _ c.pool := hholds.ledger ()
    rw [hrest, total_nil] at hledger
    cases hlocked : c.shared.locked with
    | false => rfl
    | true =>
        rw [hlocked] at hledger
        cases hledger
  have hvalue := hholds.shared.outside (hholds.shared.idle hfree)
  constructor
  · intro hlog
    rw [hvalue, hlog]
    rfl
  · intro call hlast
    rw [hvalue]
    simp only [settled, hlast]
    cases hsaved : call.saved with
    | none => simp
    | some orig => simp

/-- A `SetWriteTimeout` before a `WritePkg` is in force after it. -/
theorem write_timeout_kept_before : ∃ c, prog.Reaches (initial 1000000000 1000000000) c ∧
    c.pool = [] ∧ c.shared.log.getLast? = some ⟨7, none⟩ ∧ c.shared.wTimeout = 7 := by
  have hrun : ∃ c ∈ prog.run (initial 1000000000 1000000000)
      [.start (.setWriteTimeout 7), .fire 0 0, .fire 0 0, .start (.writePkg 5 .enter), .fire 0 1,
        .fire 0 0, .fire 0 1, .fire 0 0, .fire 0 0, .fire 0 0, .fire 0 0, .fire 0 0, .fire 0 0,
        .fire 0 0],
      c.pool = [] ∧ c.shared.log.getLast? = some ⟨7, none⟩ := by decide +kernel
  obtain ⟨c, hc, hrest, hlast⟩ := hrun
  have hreach : prog.Reaches (initial 1000000000 1000000000) c := ⟨_, hc⟩
  refine ⟨c, hreach, hrest, hlast, ?_⟩
  exact ((write_timeout_kept_iff 1000000000 1000000000 (by decide) c hreach hrest).2 _ hlast).mpr
    (Or.inl rfl)

/-- A `SetWriteTimeout` that falls between the save and the restore is lost. -/
theorem write_timeout_lost : ∃ c, prog.Reaches (initial 1000000000 1000000000) c ∧
    c.pool = [] ∧ c.shared.log = [⟨7, some 1000000000⟩] ∧ c.shared.wTimeout = 1000000000 := by
  have hrun : ∃ c ∈ prog.run (initial 1000000000 1000000000)
      [.start (.writePkg 5 .enter), .fire 0 1, .fire 0 0, .fire 0 1, .fire 0 0, .fire 0 0,
        .start (.setWriteTimeout 7), .fire 1 0, .fire 1 0, .fire 0 0, .fire 0 0, .fire 0 0,
        .fire 0 0, .fire 0 0],
      c.pool = [] ∧ c.shared.log = [⟨7, some 1000000000⟩] ∧
        c.shared.wTimeout = 1000000000 := by decide +kernel
  obtain ⟨c, hc, hend⟩ := hrun
  exact ⟨c, ⟨_, hc⟩, hend⟩

end Getty.Transport.WriteTimeout
