import Getty.Transport.CodecConn

/-!
# After a failed codec write

The codec writer keeps the first error of its sink, and `codecIOError` sets `codecBroken`
for a timeout, but only after the failing call has left the critical section.  Other
`Send`s and the flush of `CloseConn` may have passed the test of `codecBroken` by then.

The lock of the codec writer orders them.  Whoever enters the section finds the codec's
error, so that nothing is written any more; the flag only makes later calls fail sooner.
The same invariant says what the wire carries as long as nothing has failed: the output
of the codec for the packages of the successful `Send`s, in the order of the lock.

## Main results

* `sectStep_keeps` — the invariant survives every step in the critical section.
* `outline_valid` — the invariant survives every step of every call.
* `send_returns` — after a failed write every `Send` can run to its return.
* `nothing_follows_abandoned_write` — after a failed write the wire does not change, every
  `Send` fails, and a broken connection fails fast.
-/

namespace Getty.Transport.CodecConn

open Getty.Verified.ThreadPool Getty.Verified.StreamCodec
open Getty.Transport.WriteCount (Arg)

/-! ## The invariant -/

variable {κ : Type} {cfg : Cfg} {E : Encoder UInt8 κ}

/-- The packages of a `Send` that succeeds. -/
def Result.sent (r : Result) : Option (List Bytes) :=
  if r.err = none then some r.arg.packages else none

/-- The packages of the successful `Send`s, in the order in which they held the lock. -/
def Shared.sent (s : Shared κ) : List (List Bytes) := s.results.filterMap Result.sent

/-- The invariant of the connection. -/
structure Inv (E : Encoder UInt8 κ) (s : Shared κ) : Prop where
  latch : s.aborted = true → s.latched.isSome
  enc : s.enc = (E.run E.init s.log).1
  output : s.wire ++ s.rest = (E.run E.init s.log).2
  settled : s.lock = false → s.latched = none → s.rest = [] ∧ s.log = s.sent.flatMap block
  blame : s.lock = false → s.latched.isSome →
    s.closeOnce ≠ .fresh ∨ ∃ r ∈ s.results, r.err ≠ none

/-- What a call knows in the critical section, with the operations `tail` to carry out. -/
def InSect (s : Shared κ) (tail : List (Op UInt8)) : Sect → Prop
  | .next chunks todo =>
      (s.latched = none → chunks.flatten = s.rest ∧ s.log ++ todo = s.sent.flatMap block ++ tail) ∧
        (s.latched.isSome → chunks = [] ∧ todo ≠ [])
  | .poll p written _ chunks todo => s.latched = none ∧
      p.drop written ++ chunks.flatten = s.rest ∧ s.log ++ todo = s.sent.flatMap block ++ tail
  | .judge p written _ _ _ chunks todo => s.latched = none ∧
      p.drop written ++ chunks.flatten = s.rest ∧ s.log ++ todo = s.sent.flatMap block ++ tail
  | .out none => s.latched = none ∧ s.rest = [] ∧ s.log = s.sent.flatMap block ++ tail
  | .out (some _) => s.latched.isSome

/-- What a call knows. -/
def Local (s : Shared κ) : Thread → Prop
  | .send _ late _ .lock => late = true → s.aborted = true
  | .send arg late _ (.sect pc) => (late = true → s.aborted = true) ∧
      InSect s (block arg.packages) pc
  | .send _ late _ (.setBroken r) => late = true → r.err ≠ none
  | .send _ late _ (.closeSock r) => late = true → r.err ≠ none
  | .send _ late _ (.done r) => late = true → r.err ≠ none
  | .close _ .doOnce => True
  | .close _ (.sect pc) => s.closeOnce ≠ .fresh ∧ InSect s [.close] pc
  | .close _ _ => s.closeOnce ≠ .fresh
  | _ => True

/-- The call is in the critical section of the codec writer. -/
def Thread.inSect : Thread → Bool
  | .send _ _ _ (.sect _) => true
  | .close _ (.sect _) => true
  | _ => false

/-- The lock of the codec writer is held by the call in the section. -/
def outline (E : Encoder UInt8 κ) : Outline (Shared κ) Thread Unit where
  shared := Inv E
  loc := Local
  val _ s := s.lock.toNat
  wt _ th := th.inSect.toNat

variable {s s' : Shared κ} {a b : Thread} {bs : List Thread}

/-! ## What a step does -/

/-- A step in the section leaves the rest of the connection alone. -/
structure Frame (s s' : Shared κ) : Prop where
  lock : s'.lock = s.lock
  results : s'.results = s.results
  closeOnce : s'.closeOnce = s.closeOnce
  codecBroken : s'.codecBroken = s.codecBroken

/-- What a step in the section has to show for itself.  It puts something on the wire
only if no write has failed before. -/
structure SectKeeps (E : Encoder UInt8 κ) (s : Shared κ) (tail : List (Op UInt8))
    (s' : Shared κ) (pc : Sect) : Prop where
  inv : Inv E s'
  loc : InSect s' tail pc
  frame : Frame s s'
  aborted : s.aborted = true → s'.aborted = true
  wire : s.aborted = true → s'.wire = s.wire

variable {tail todo : List (Op UInt8)} {pc pc' : Sect}

theorem SectKeeps.refl (hinv : Inv E s) (hloc : InSect s tail pc) : SectKeeps E s tail s pc :=
  ⟨hinv, hloc, ⟨rfl, rfl, rfl, rfl⟩, id, fun _ => rfl⟩

/-- The polling writer returns an error. -/
theorem SectKeeps.abort (h : SectKeeps E s tail s' pc) (hlock : s.lock = true) (e : Err) :
    SectKeeps E s tail (s'.abort e) (.out (some e)) := by
  have hlock' : s'.lock = true := h.frame.lock.trans hlock
  refine ⟨⟨fun _ => rfl, h.inv.enc, h.inv.output, ?_, ?_⟩, rfl,
    ⟨h.frame.lock, h.frame.results, h.frame.closeOnce, h.frame.codecBroken⟩, fun _ => rfl, h.wire⟩
  · intro hfree
    exact absurd (hfree.symm.trans hlock') (by decide)
  · intro hfree
    exact absurd (hfree.symm.trans hlock') (by decide)

theorem Inv.not_aborted (h : Inv E s) (hlatched : s.latched = none) : s.aborted = false := by
  cases ha : s.aborted with
  | false => rfl
  | true =>
      have := h.latch ha
      rw [hlatched] at this
      cases this

/-- The socket accepts a part of what the codec has produced. -/
theorem Inv.put (h : Inv E s) (hlock : s.lock = true) {b r : Bytes} (hrest : b ++ r = s.rest) :
    Inv E (s.put b) ∧ (s.put b).rest = r := by
  have hr : (s.put b).rest = r := by
    simp [Shared.put, ← hrest]
  refine ⟨⟨h.latch, h.enc, ?_, ?_, ?_⟩, hr⟩
  · show s.wire ++ b ++ (s.put b).rest = (E.run E.init s.log).2
    rw [hr, List.append_assoc, hrest, h.output]
  · intro hfree
    exact absurd (hfree.symm.trans hlock) (by decide)
  · intro hfree
    exact absurd (hfree.symm.trans hlock) (by decide)

private theorem take_append_drop_length (l : Bytes) (n : Nat) :
    l.take n ++ l.drop (l.take n).length = l := by
  rw [List.length_take]
  rcases Nat.le_total n l.length with h | h
  · rw [Nat.min_eq_left h, List.take_append_drop]
  · rw [Nat.min_eq_right h, List.take_of_length_le h, List.drop_length, List.append_nil]

theorem SectKeeps.put {p : Bytes} {written : Nat} {chunks : List Bytes} (hinv : Inv E s)
    (hlock : s.lock = true) (hlatched : s.latched = none)
    (hrest : p.drop written ++ chunks.flatten = s.rest)
    (hlog : s.log ++ todo = s.sent.flatMap block ++ tail) (n : Nat) (last : Int) :
    SectKeeps E s tail (s.put ((p.drop written).take n))
      (.poll p (written + ((p.drop written).take n).length) last chunks todo) := by
  have hsplit : (p.drop written).take n ++
      (p.drop (written + ((p.drop written).take n).length) ++ chunks.flatten) = s.rest := by
    rw [← List.append_assoc, ← List.drop_drop, take_append_drop_length, hrest]
  obtain ⟨hput, hr⟩ := hinv.put hlock hsplit
  refine ⟨hput, ⟨hlatched, hr.symm, hlog⟩, ⟨rfl, rfl, rfl, rfl⟩, id, ?_⟩
  intro ha
  rw [hinv.not_aborted hlatched] at ha
  cases ha

/-- The codec carries out one operation. -/
theorem SectKeeps.encode {op : Op UInt8} (hinv : Inv E s) (hlock : s.lock = true)
    (hlatched : s.latched = none) (hrest : s.rest = [])
    (hlog : s.log ++ op :: todo = s.sent.flatMap block ++ tail) :
    SectKeeps E s tail (s.encode E op) (.next (E.apply s.enc op).2 todo) := by
  have hlocked : ∀ {P : Prop}, s.lock = false → P := by
    intro P hfree
    exact absurd (hfree.symm.trans hlock) (by decide)
  refine ⟨⟨hinv.latch, ?_, ?_, hlocked, hlocked⟩, ⟨?_, ?_⟩, ⟨rfl, rfl, rfl, rfl⟩, id, fun _ => rfl⟩
  · simp only [Shared.encode, E.run_snoc]
    rw [hinv.enc]
  · simp only [Shared.encode, E.run_snoc]
    rw [← List.append_assoc, hinv.output, hinv.enc]
  · intro _
    refine ⟨?_, ?_⟩
    · simp [Shared.encode, hrest]
    · simpa [Shared.encode, Shared.sent] using hlog
  · intro hsome
    exact absurd (hlatched ▸ hsome) (by decide)

/-- One round on the socket. -/
theorem pollStep_keeps {polls polls' : List WritePoll} {p : Bytes} {written : Nat} {last : Int}
    {chunks : List Bytes} (hinv : Inv E s) (hlock : s.lock = true)
    (hpc : InSect s tail (.poll p written last chunks todo))
    (h : (s', polls', pc') ∈ pollStep s p written last chunks todo polls) :
    SectKeeps E s tail s' pc' := by
  have hkeep : SectKeeps E s tail s (.poll p written last chunks todo) := .refl hinv hpc
  obtain ⟨hlatched, hrest, hlog⟩ := hpc
  cases polls with
  | nil => cases h
  | cons o os =>
      have hput := SectKeeps.put hinv hlock hlatched hrest hlog o.n
      simp only [pollStep] at h
      split at h
      · simp only [List.mem_singleton, Prod.mk.injEq] at h
        obtain ⟨rfl, -, rfl⟩ := h
        exact hkeep.abort hlock _
      · split at h
        · simp only [List.mem_singleton, Prod.mk.injEq] at h
          obtain ⟨rfl, -, rfl⟩ := h
          exact hput _
        · split at h
          · simp only [List.mem_singleton, Prod.mk.injEq] at h
            obtain ⟨rfl, -, rfl⟩ := h
            -- the same knowledge before a round and after one that ended in a timeout
            exact ⟨(hput 0).inv, (hput 0).loc, (hput 0).frame, (hput 0).aborted, (hput 0).wire⟩
          · simp only [List.mem_singleton, Prod.mk.injEq] at h
            obtain ⟨rfl, -, rfl⟩ := h
            exact (hput 0).abort hlock _

/-- **The critical section.**  Every step in it keeps the invariant. -/
theorem sectStep_keeps {polls polls' : List WritePoll} (hinv : Inv E s) (hlock : s.lock = true)
    (hpc : InSect s tail pc) (h : (s', polls', pc') ∈ sectStep cfg E s polls pc) :
    SectKeeps E s tail s' pc' := by
  have hkeep : SectKeeps E s tail s pc := .refl hinv hpc
  cases pc with
  | next chunks todo =>
      cases hl : s.latched with
      | none =>
          obtain ⟨hrest, hlog⟩ := hpc.1 hl
          cases chunks with
          | cons p chunks =>
              simp only [sectStep, List.mem_singleton, Prod.mk.injEq] at h
              obtain ⟨rfl, -, rfl⟩ := h
              exact .refl hinv ⟨hl, by simpa using hrest, hlog⟩
          | nil =>
              cases todo with
              | nil =>
                  simp only [sectStep, List.mem_singleton, Prod.mk.injEq] at h
                  obtain ⟨rfl, -, rfl⟩ := h
                  exact .refl hinv ⟨hl, hrest.symm, by simpa using hlog⟩
              | cons op todo =>
                  simp only [sectStep, hl, List.mem_singleton, Prod.mk.injEq] at h
                  obtain ⟨rfl, -, rfl⟩ := h
                  exact .encode hinv hlock hl hrest.symm hlog
      | some e =>
          -- the latched codec returns its error from the next operation
          obtain ⟨rfl, hne⟩ := hpc.2 (by rw [hl]; rfl)
          cases todo with
          | nil => exact absurd rfl hne
          | cons op todo =>
              simp only [sectStep, hl, List.mem_singleton, Prod.mk.injEq] at h
              obtain ⟨rfl, -, rfl⟩ := h
              refine .refl hinv ?_
              show s'.latched.isSome
              rw [hl]
              rfl
  | poll p written last chunks todo =>
      simp only [sectStep] at h
      split at h
      · exact pollStep_keeps hinv hlock hpc h
      · next hle =>
          simp only [List.mem_singleton, Prod.mk.injEq] at h
          obtain ⟨rfl, -, rfl⟩ := h
          obtain ⟨hl, hrest, hlog⟩ := hpc
          refine .refl hinv ⟨fun _ => ⟨?_, hlog⟩, fun hsome => ?_⟩
          · rw [← hrest, List.drop_of_length_le (by omega), List.nil_append]
          · rw [hl] at hsome
            cases hsome
  | judge p written last e now chunks todo =>
      simp only [sectStep] at h
      split at h
      · simp only [List.mem_singleton, Prod.mk.injEq] at h
        obtain ⟨rfl, -, rfl⟩ := h
        exact hkeep.abort hlock e
      · split at h
        · simp only [List.mem_singleton, Prod.mk.injEq] at h
          obtain ⟨rfl, -, rfl⟩ := h
          exact hkeep.abort hlock e
        · simp only [List.mem_singleton, Prod.mk.injEq] at h
          obtain ⟨rfl, -, rfl⟩ := h
          exact .refl hinv hpc
  | out err => cases h

/-! ## All steps -/

/-- What no step undoes. -/
structure Mono (s s' : Shared κ) : Prop where
  aborted : s.aborted = true → s'.aborted = true
  codecBroken : s.codecBroken = true → s'.codecBroken = true
  closeOnce : s.closeOnce ≠ .fresh → s'.closeOnce ≠ .fresh

theorem Mono.refl (s : Shared κ) : Mono s s := ⟨id, id, id⟩

theorem Mono.abort (s : Shared κ) (e : Err) : Mono s (s.abort e) := ⟨fun _ => rfl, id, id⟩

theorem pollStep_mono {polls polls' : List WritePoll} {p : Bytes} {written : Nat} {last : Int}
    {chunks : List Bytes} (h : (s', polls', pc') ∈ pollStep s p written last chunks todo polls) :
    Mono s s' := by
  cases polls with
  | nil => cases h
  | cons o os =>
      simp only [pollStep] at h
      split at h
      · cases List.mem_singleton.mp h
        exact .abort s _
      · split at h
        · cases List.mem_singleton.mp h
          exact ⟨id, id, id⟩
        · split at h
          · cases List.mem_singleton.mp h
            exact ⟨id, id, id⟩
          · cases List.mem_singleton.mp h
            exact ⟨fun _ => rfl, id, id⟩

private theorem sectStep_mono {polls polls' : List WritePoll}
    (h : (s', polls', pc') ∈ sectStep cfg E s polls pc) : Mono s s' := by
  cases pc with
  | next chunks todo =>
      cases chunks with
      | cons p chunks =>
          cases List.mem_singleton.mp h
          exact .refl s
      | nil => cases todo with
        | nil =>
            cases List.mem_singleton.mp h
            exact .refl s
        | cons op todo =>
            simp only [sectStep] at h
            split at h
            · cases List.mem_singleton.mp h
              exact .refl s
            · cases List.mem_singleton.mp h
              exact ⟨id, id, id⟩
  | poll p written last chunks todo =>
      simp only [sectStep] at h
      split at h
      · exact pollStep_mono h
      · cases List.mem_singleton.mp h
        exact .refl s
  | judge p written last e now chunks todo =>
      simp only [sectStep] at h
      split at h
      · cases List.mem_singleton.mp h
        exact .abort s e
      · split at h
        · cases List.mem_singleton.mp h
          exact .abort s e
        · cases List.mem_singleton.mp h
          exact .refl s
  | out err => cases h

/-- A step outside of the section leaves the codec alone. -/
structure Outside (s s' : Shared κ) : Prop where
  mono : Mono s s'
  latched : s'.latched = s.latched
  enc : s'.enc = s.enc
  log : s'.log = s.log
  rest : s'.rest = s.rest
  wire : s'.wire = s.wire
  aborted : s'.aborted = s.aborted
  sent : s'.sent = s.sent
  results : ∀ r ∈ s.results, r ∈ s'.results

theorem Outside.refl (s : Shared κ) : Outside s s :=
  ⟨⟨id, id, id⟩, rfl, rfl, rfl, rfl, rfl, rfl, rfl, fun _ => id⟩

/-- A `Send` that fails before it enters the section. -/
private theorem outside_record (s : Shared κ) (arg : Arg) (late : Bool) (count : Nat) (e : Err) :
    Outside s (s.record ⟨arg, late, count, some e⟩) := by
  refine ⟨⟨id, id, id⟩, rfl, rfl, rfl, rfl, rfl, rfl, ?_, ?_⟩
  · simp [Shared.record, Shared.sent, Result.sent]
  · intro r hr
    exact List.mem_append_left _ hr

theorem outside_lock (s : Shared κ) (x : Bool) : Outside s { s with lock := x } :=
  ⟨⟨id, id, id⟩, rfl, rfl, rfl, rfl, rfl, rfl, rfl, fun _ => id⟩

theorem outside_setBroken (s : Shared κ) : Outside s { s with codecBroken := true } :=
  ⟨⟨id, fun _ => rfl, id⟩, rfl, rfl, rfl, rfl, rfl, rfl, rfl, fun _ => id⟩

theorem outside_closeSock (s : Shared κ) : Outside s { s with sockClosed := true } :=
  ⟨⟨id, id, id⟩, rfl, rfl, rfl, rfl, rfl, rfl, rfl, fun _ => id⟩

private theorem outside_closeOnce (s : Shared κ) {o : Once} (ho : o ≠ .fresh) :
    Outside s { s with closeOnce := o } :=
  ⟨⟨id, id, fun _ => ho⟩, rfl, rfl, rfl, rfl, rfl, rfl, rfl, fun _ => id⟩

private theorem send_outside {arg : Arg} {late : Bool} {polls : List WritePoll} {pc : SendPc}
    (hout : Thread.inSect (.send arg late polls pc) = false)
    (h : (s', bs) ∈ sendStep cfg E s arg late polls pc) : Outside s s' := by
  cases pc with
  | check =>
      simp only [sendStep] at h
      split at h
      · cases List.mem_singleton.mp h
        exact outside_record s arg s.aborted 0 .codecStreamBroken
      · split at h
        · cases List.mem_singleton.mp h
          exact outside_record s arg s.aborted 0 .illegalPkg
        · cases List.mem_singleton.mp h
          exact .refl s
  | lock =>
      obtain ⟨-, h⟩ := mem_blocked h
      cases h
      exact outside_lock s true
  | sect pc => cases hout
  | setBroken r =>
      cases List.mem_singleton.mp h
      exact outside_setBroken s
  | closeSock r =>
      cases List.mem_singleton.mp h
      exact outside_closeSock s
  | done r => cases h

private theorem recv_outside {outcome : RecvResult} {pc : RecvPc}
    (h : (s', bs) ∈ recvStep s outcome pc) : Outside s s' := by
  cases pc with
  | check =>
      simp only [recvStep] at h
      split at h
      · cases List.mem_singleton.mp h
        exact .refl s
      · cases List.mem_singleton.mp h
        exact .refl s
  | read =>
      cases List.mem_singleton.mp h
      exact ⟨⟨id, id, id⟩, rfl, rfl, rfl, rfl, rfl, rfl, rfl, fun _ => id⟩
  | codecReadError r =>
      simp only [recvStep] at h
      split at h
      · cases List.mem_singleton.mp h
        exact .refl s
      · cases List.mem_singleton.mp h
        exact .refl s
  | setBroken r =>
      cases List.mem_singleton.mp h
      exact outside_setBroken s
  | closeSock r =>
      cases List.mem_singleton.mp h
      exact outside_closeSock s
  | done r => cases h

private theorem close_outside {polls : List WritePoll} {pc : ClosePc}
    (hout : Thread.inSect (.close polls pc) = false)
    (h : (s', bs) ∈ closeStep cfg E s polls pc) : Outside s s' := by
  cases pc with
  | doOnce =>
      simp only [closeStep] at h
      split at h
      · cases List.mem_singleton.mp h
        exact outside_closeOnce s (by decide)
      · cases h
      · cases List.mem_singleton.mp h
        exact .refl s
  | setClosing =>
      cases List.mem_singleton.mp h
      exact ⟨⟨id, id, id⟩, rfl, rfl, rfl, rfl, rfl, rfl, rfl, fun _ => id⟩
  | checkBroken =>
      simp only [closeStep] at h
      split at h
      · cases List.mem_singleton.mp h
        exact .refl s
      · cases List.mem_singleton.mp h
        exact .refl s
  | lock =>
      obtain ⟨-, h⟩ := mem_blocked h
      cases h
      exact outside_lock s true
  | sect pc => cases hout
  | closeSock =>
      cases List.mem_singleton.mp h
      exact outside_closeSock s
  | finish =>
      cases List.mem_singleton.mp h
      exact outside_closeOnce s (by decide)

theorem step_outside (hout : a.inSect = false) (h : (s', bs) ∈ step cfg E s a) :
    Outside s s' := by
  cases a with
  | send arg late polls pc => exact send_outside hout h
  | recv outcome pc => exact recv_outside h
  | close polls pc => exact close_outside hout h
  | stop =>
      cases List.mem_singleton.mp h
      exact ⟨⟨id, id, id⟩, rfl, rfl, rfl, rfl, rfl, rfl, rfl, fun _ => id⟩

/-- A call in the section takes a step there or leaves it. -/
theorem step_inside (hin : a.inSect = true) (h : (s', bs) ∈ step cfg E s a) :
    (∃ polls pc polls' pc', (Local s a → ∃ tail, InSect s tail pc) ∧
        (s', polls', pc') ∈ sectStep cfg E s polls pc) ∨
      s'.wire = s.wire ∧ Mono s s' := by
  cases a with
  | send arg late polls pc =>
      cases pc with
      | sect pc =>
          cases pc with
          | out err =>
              cases List.mem_singleton.mp h
              exact Or.inr ⟨rfl, id, id, id⟩
          | _ =>
              obtain ⟨out, hsect, heq⟩ := List.mem_map.mp h
              cases heq
              exact Or.inl ⟨polls, _, out.2.1, out.2.2, fun hl => ⟨_, hl.2⟩, hsect⟩
      | _ => cases hin
  | close polls pc =>
      cases pc with
      | sect pc =>
          cases pc with
          | out err =>
              cases List.mem_singleton.mp h
              exact Or.inr ⟨rfl, id, id, id⟩
          | _ =>
              obtain ⟨out, hsect, heq⟩ := List.mem_map.mp h
              cases heq
              exact Or.inl ⟨polls, _, out.2.1, out.2.2, fun hl => ⟨_, hl.2⟩, hsect⟩
      | _ => cases hin
  | _ => cases hin

/-- **No step undoes a failure.** -/
theorem step_mono (h : (s', bs) ∈ step cfg E s a) : Mono s s' := by
  cases hin : a.inSect with
  | false => exact (step_outside hin h).mono
  | true =>
      rcases step_inside hin h with ⟨polls, pc, polls', pc', -, hsect⟩ | ⟨-, hmono⟩
      · exact sectStep_mono hsect
      · exact hmono

/-! ## Stability -/

theorem Outside.inSect (h : Outside s s') (hpc : InSect s tail pc) : InSect s' tail pc := by
  cases pc with
  | out err => cases err <;> simpa only [InSect, h.latched, h.rest, h.log, h.sent] using hpc
  | _ => simpa only [InSect, h.latched, h.rest, h.log, h.sent] using hpc

theorem Outside.inv (h : Outside s s') (hinv : Inv E s)
    (hlock : s'.lock = false → s.lock = false) : Inv E s' := by
  refine ⟨?_, ?_, ?_, ?_, ?_⟩
  · rw [h.aborted, h.latched]
    exact hinv.latch
  · rw [h.enc, h.log]
    exact hinv.enc
  · rw [h.wire, h.rest, h.log]
    exact hinv.output
  · intro hfree
    rw [h.latched, h.rest, h.log, h.sent]
    exact hinv.settled (hlock hfree)
  · intro hfree hsome
    rw [h.latched] at hsome
    rcases hinv.blame (hlock hfree) hsome with honce | ⟨r, hr, herr⟩
    · exact Or.inl (h.mono.closeOnce honce)
    · exact Or.inr ⟨r, h.results r hr, herr⟩

/-- What a call outside of the section knows stays true. -/
theorem Mono.local (h : Mono s s') (hout : b.inSect = false) (hl : Local s b) : Local s' b := by
  cases b with
  | send arg late polls pc =>
      cases pc with
      | sect pc => cases hout
      | lock => exact fun hlate => h.aborted (hl hlate)
      | _ => exact hl
  | close polls pc =>
      cases pc with
      | sect pc => cases hout
      | doOnce => trivial
      | _ => exact h.closeOnce hl
  | recv outcome pc => trivial
  | stop => trivial

theorem Outside.local (h : Outside s s') (hl : Local s b) : Local s' b := by
  cases hin : b.inSect with
  | false => exact h.mono.local hin hl
  | true =>
      cases b with
      | send arg late polls pc =>
          cases pc with
          | sect pc => exact ⟨fun hlate => h.mono.aborted (hl.1 hlate), h.inSect hl.2⟩
          | _ => cases hin
      | close polls pc =>
          cases pc with
          | sect pc => exact ⟨h.mono.closeOnce hl.1, h.inSect hl.2⟩
          | _ => cases hin
      | _ => cases hin

/-! ## The outline is valid -/

/-- What a step has to show for itself. -/
abbrev Keeps (E : Encoder UInt8 κ) (s : Shared κ) (a : Thread) (s' : Shared κ)
    (bs : List Thread) : Prop :=
  (outline E).Keeps s a s' bs

theorem keeps_one (hinv : Inv E s') (hloc : Local s' b)
    (hlock : s'.lock.toNat + a.inSect.toNat = s.lock.toNat + b.inSect.toNat) :
    Keeps E s a s' [b] := by
  refine Outline.keeps_one hinv hloc fun _ => ?_
  simp only [outline]
  omega

theorem keeps_end (hinv : Inv E s') (hlock : s'.lock = s.lock) (hout : a.inSect = false) :
    Keeps E s a s' [] :=
  Outline.keeps_end hinv fun _ => by simp [outline, hlock, hout]

/-- A step outside of the section that does not touch the lock. -/
theorem keeps_outside (hinv : Inv E s) (ho : Outside s s') (hlock : s'.lock = s.lock)
    (ha : a.inSect = false) (hb : b.inSect = false) (hloc : Local s' b) : Keeps E s a s' [b] := by
  refine keeps_one (ho.inv hinv (fun hfree => hlock ▸ hfree)) hloc ?_
  rw [hlock, ha, hb]

/-- A call takes the lock. -/
private theorem inSect_lock (hinv : Inv E s) (hfree : s.lock = false) (htail : tail ≠ []) :
    InSect { s with lock := true } tail (.next [] tail) := by
  refine ⟨fun hnone => ?_, fun _ => ⟨rfl, htail⟩⟩
  obtain ⟨hrest, hlog⟩ := hinv.settled hfree hnone
  refine ⟨hrest.symm, ?_⟩
  show s.log ++ tail = s.sent.flatMap block ++ tail
  rw [hlog]

theorem keeps_lock (hinv : Inv E s) (hfree : ¬ s.lock = true) (htail : tail ≠ [])
    (hloc : InSect { s with lock := true } tail (.next [] tail) → Local { s with lock := true } b)
    (ha : a.inSect = false) (hb : b.inSect = true) : Keeps E s a { s with lock := true } [b] := by
  rw [Bool.not_eq_true] at hfree
  refine keeps_one ((outside_lock s true).inv hinv (fun hf => by cases hf))
    (hloc (inSect_lock hinv hfree htail)) ?_
  rw [hfree, ha, hb]
  rfl

private theorem sent_record_ok (s : Shared κ) (arg : Arg) (late : Bool) :
    (s.record (.ofSect arg late none)).sent = s.sent ++ [arg.packages] := by
  simp [Shared.record, Shared.sent, Result.sent, Result.ofSect]

/-- `Send` leaves the section. -/
private theorem send_unlock_inv {arg : Arg} {err : Option Err} (late : Bool) (hinv : Inv E s)
    (hpc : InSect s (block arg.packages) (.out err)) :
    Inv E ({ s with lock := false }.record (.ofSect arg late err)) := by
  refine ⟨hinv.latch, hinv.enc, hinv.output, fun _ hnone => ?_, fun _ hsome => Or.inr ?_⟩
  · cases err with
    | some e =>
        have hsome : s.latched.isSome := hpc
        rw [show s.latched = none from hnone] at hsome
        cases hsome
    | none =>
        obtain ⟨-, hrest, hlog⟩ := hpc
        refine ⟨hrest, ?_⟩
        rw [sent_record_ok, List.flatMap_append, List.flatMap_cons, List.flatMap_nil,
          List.append_nil]
        exact hlog
  · cases err with
    | none =>
        have hnone : s.latched = none := hpc.1
        rw [show s.latched = none from hnone] at hsome
        cases hsome
    | some e =>
        exact ⟨.ofSect arg late (some e), List.mem_append_right _ (List.mem_singleton_self _),
          by simp [Result.ofSect]⟩

/-- The section of a late `Send` ends in an error. -/
private theorem ofSect_late (arg : Arg) {late : Bool} {err : Option Err} (hinv : Inv E s)
    (hlate : late = true → s.aborted = true) (hpc : InSect s tail (.out err)) :
    late = true → (Result.ofSect arg late err).err ≠ none := by
  intro hl
  cases err with
  | some e => simp [Result.ofSect]
  | none =>
      have ha := hinv.not_aborted hpc.1
      rw [hlate hl] at ha
      cases ha

theorem lock_of_inSect (ha : a.inSect = true) (hbook : (a.inSect.toNat : Int) ≤ s.lock.toNat) :
    s.lock = true := by
  cases hs : s.lock with
  | true => rfl
  | false => simp [hs, ha] at hbook

private theorem sendStep_keeps {arg : Arg} {late : Bool} {polls : List WritePoll} {pc : SendPc}
    (hinv : Inv E s) (hl : Local s (.send arg late polls pc))
    (hbook : ((Thread.send arg late polls pc).inSect.toNat : Int) ≤ s.lock.toNat)
    (h : (s', bs) ∈ step cfg E s (.send arg late polls pc)) :
    Keeps E s (.send arg late polls pc) s' bs := by
  cases pc with
  | check =>
      have ho := step_outside rfl h
      simp only [step, sendStep] at h
      split at h
      · cases List.mem_singleton.mp h
        exact keeps_outside hinv ho rfl rfl rfl (fun _ => by simp)
      · split at h
        · cases List.mem_singleton.mp h
          exact keeps_outside hinv ho rfl rfl rfl (fun _ => by simp)
        · cases List.mem_singleton.mp h
          exact keeps_outside hinv ho rfl rfl rfl id
  | lock =>
      obtain ⟨hfree, h⟩ := mem_blocked h
      cases h
      exact keeps_lock hinv hfree (block_ne_nil _) (fun hpc => ⟨hl, hpc⟩) rfl rfl
  | sect pc =>
      have hlock := lock_of_inSect rfl hbook
      cases pc with
      | out err =>
          cases List.mem_singleton.mp h
          have hlate := ofSect_late arg hinv hl.1 hl.2
          refine keeps_one (send_unlock_inv late hinv hl.2) ?_ ?_
          · split
            · exact hlate
            · exact hlate
          · split <;> simp [hlock, Thread.inSect, Shared.record]
      | _ =>
          obtain ⟨⟨s₁, polls', pc'⟩, hsect, heq⟩ := List.mem_map.mp h
          cases heq
          have hkeeps := sectStep_keeps hinv hlock hl.2 hsect
          refine keeps_one hkeeps.inv ⟨fun hlate => hkeeps.aborted (hl.1 hlate), hkeeps.loc⟩ ?_
          rw [hkeeps.frame.lock]
          rfl
  | setBroken r =>
      cases List.mem_singleton.mp h
      exact keeps_outside hinv (step_outside rfl h) rfl rfl rfl hl
  | closeSock r =>
      cases List.mem_singleton.mp h
      exact keeps_outside hinv (step_outside rfl h) rfl rfl rfl hl
  | done r => cases h

private theorem recvStep_keeps {outcome : RecvResult} {pc : RecvPc} (hinv : Inv E s)
    (h : (s', bs) ∈ step cfg E s (.recv outcome pc)) :
    Keeps E s (.recv outcome pc) s' bs := by
  have ho := step_outside rfl h
  have hbs : s'.lock = s.lock ∧ ∃ pc', bs = [.recv outcome pc'] := by
    cases pc <;> grind [step, recvStep]
  obtain ⟨hlock, pc', rfl⟩ := hbs
  exact keeps_outside hinv ho hlock rfl rfl trivial

/-- `CloseConn` leaves the section. -/
private theorem close_unlock_inv {err : Option Err} (hinv : Inv E s) (honce : s.closeOnce ≠ .fresh)
    (hpc : InSect s [.close] (.out err)) :
    Inv E { s with
      lock := false, latched := if err = none then some .writerClosed else s.latched } := by
  refine ⟨fun ha => ?_, hinv.enc, hinv.output, fun _ hnone => ?_, fun _ _ => Or.inl honce⟩
  · show (if err = none then some Err.writerClosed else s.latched).isSome
    split
    · rfl
    · exact hinv.latch ha
  · cases err with
    | none => cases hnone
    | some e =>
        have hsome : s.latched.isSome := hpc
        rw [show s.latched = none from hnone] at hsome
        cases hsome

private theorem closeStep_keeps {polls : List WritePoll} {pc : ClosePc}
    (hinv : Inv E s) (hl : Local s (.close polls pc))
    (hbook : ((Thread.close polls pc).inSect.toNat : Int) ≤ s.lock.toNat)
    (h : (s', bs) ∈ step cfg E s (.close polls pc)) : Keeps E s (.close polls pc) s' bs := by
  cases pc with
  | doOnce =>
      have ho := step_outside rfl h
      simp only [step, closeStep] at h
      split at h
      · cases List.mem_singleton.mp h
        exact keeps_outside hinv ho rfl rfl rfl (fun hf => by cases hf)
      · cases h
      · cases List.mem_singleton.mp h
        exact keeps_end hinv rfl rfl
  | setClosing =>
      have ho := step_outside rfl h
      cases List.mem_singleton.mp h
      exact keeps_outside hinv ho rfl rfl rfl hl
  | checkBroken =>
      simp only [step, closeStep] at h
      split at h
      · cases List.mem_singleton.mp h
        exact keeps_outside hinv (.refl s) rfl rfl rfl hl
      · cases List.mem_singleton.mp h
        exact keeps_outside hinv (.refl s) rfl rfl rfl hl
  | lock =>
      obtain ⟨hfree, h⟩ := mem_blocked h
      cases h
      exact keeps_lock hinv hfree (by simp) (fun hpc => ⟨hl, hpc⟩) rfl rfl
  | sect pc =>
      have hlock := lock_of_inSect rfl hbook
      cases pc with
      | out err =>
          cases List.mem_singleton.mp h
          refine keeps_one (close_unlock_inv hinv hl.1 hl.2) hl.1 ?_
          rw [hlock]
          rfl
      | _ =>
          obtain ⟨⟨s₁, polls', pc'⟩, hsect, heq⟩ := List.mem_map.mp h
          cases heq
          have hkeeps := sectStep_keeps hinv hlock hl.2 hsect
          refine keeps_one hkeeps.inv ⟨?_, hkeeps.loc⟩ ?_
          · rw [hkeeps.frame.closeOnce]
            exact hl.1
          · rw [hkeeps.frame.lock]
            rfl
  | closeSock =>
      have ho := step_outside rfl h
      cases List.mem_singleton.mp h
      exact keeps_outside hinv ho rfl rfl rfl hl
  | finish =>
      have ho := step_outside rfl h
      cases List.mem_singleton.mp h
      exact keeps_end (ho.inv hinv id) rfl rfl

private theorem step_keeps (hinv : Inv E s) (hl : Local s a)
    (hbook : (a.inSect.toNat : Int) ≤ s.lock.toNat) (h : (s', bs) ∈ step cfg E s a) :
    Keeps E s a s' bs := by
  cases a with
  | send arg late polls pc => exact sendStep_keeps hinv hl hbook h
  | recv outcome pc => exact recvStep_keeps hinv h
  | close polls pc => exact closeStep_keeps hinv hl hbook h
  | stop =>
      have ho := step_outside rfl h
      cases List.mem_singleton.mp h
      exact keeps_end (ho.inv hinv id) rfl rfl

/-- **The invariant survives every step of every call.** -/
theorem outline_valid (cfg : Cfg) (E : Encoder UInt8 κ) : (outline E).Valid (prog cfg E) where
  entry := by
    intro s a _ ha
    cases a with
    | send arg late polls pc =>
        cases pc with
        | check => exact ⟨trivial, fun _ => rfl⟩
        | _ => cases ha
    | recv outcome pc =>
        cases pc with
        | check => exact ⟨trivial, fun _ => rfl⟩
        | _ => cases ha
    | close polls pc =>
        cases pc with
        | doOnce => exact ⟨trivial, fun _ => rfl⟩
        | _ => cases ha
    | stop => exact ⟨trivial, fun _ => rfl⟩
  own := by
    intro s a s' bs hinv hl hbook h
    exact step_keeps hinv hl (hbook ()) h
  other := by
    intro s a b s' bs hinv hla hlb hpair h
    cases hin : a.inSect with
    | false => exact (step_outside hin h).local hlb
    | true =>
        refine (step_mono h).local ?_ hlb
        have hle := hpair ()
        cases hb : b.inSect with
        | false => rfl
        | true =>
            have := Bool.toNat_le s.lock
            simp only [outline, hin, hb, Bool.toNat_true] at hle
            omega

private theorem holds_initial (E : Encoder UInt8 κ) : (outline E).Holds (initial E) where
  shared := ⟨(fun h => by cases h), rfl, rfl, fun _ _ => ⟨rfl, rfl⟩, (fun _ h => by cases h)⟩
  loc := fun a ha => by cases ha
  ledger := fun _ => rfl

theorem holds_reaches {c : Conf (Shared κ) Thread} (h : (prog cfg E).Reaches (initial E) c) :
    (outline E).Holds c :=
  (outline_valid cfg E).holds_run (holds_initial E) h

/-! ## The wire after a failed write -/

/-- **Step lemma.**  After a failed write no step puts anything on the wire. -/
theorem step_wire (hinv : Inv E s) (hl : Local s a)
    (hbook : (a.inSect.toNat : Int) ≤ s.lock.toNat) (haborted : s.aborted = true)
    (h : (s', bs) ∈ step cfg E s a) : s'.wire = s.wire := by
  cases hin : a.inSect with
  | false => exact (step_outside hin h).wire
  | true =>
      have hlock := lock_of_inSect hin hbook
      rcases step_inside hin h with ⟨polls, pc, polls', pc', hpc, hsect⟩ | ⟨hwire, -⟩
      · obtain ⟨tail, hpc⟩ := hpc hl
        exact (sectStep_keeps hinv hlock hpc hsect).wire haborted
      · exact hwire

/-- **Run lemma.**  After a failed write the wire does not change any more. -/
theorem wire_reaches {c c' : Conf (Shared κ) Thread} (hc : (outline E).Holds c)
    (haborted : c.shared.aborted = true) (h : (prog cfg E).Reaches c c') :
    c'.shared.wire = c.shared.wire := by
  refine (h.induct (fun d => (outline E).Holds d ∧ d.shared.aborted = true ∧
    d.shared.wire = c.shared.wire) ⟨hc, haborted, rfl⟩ ?_).2.2
  rintro d d' m ⟨hd, ha, hwire⟩ hm
  refine ⟨(outline_valid cfg E).holds_exec hd hm, ?_⟩
  rcases exec_cases hm with ⟨a, -, rfl⟩ | ⟨l, a, r, s', bs, hpool, hstep, rfl⟩
  · exact ⟨ha, hwire⟩
  · have hmem : a ∈ d.pool := by rw [hpool]; simp
    refine ⟨(step_mono hstep).aborted ha, ?_⟩
    exact (step_wire hd.shared (hd.loc a hmem) (hd.weight_le hmem ()) ha hstep).trans hwire

/-- **Run lemma.**  A broken connection stays broken. -/
theorem codecBroken_reaches {c c' : Conf (Shared κ) Thread} (hbroken : c.shared.codecBroken = true)
    (h : (prog cfg E).Reaches c c') : c'.shared.codecBroken = true := by
  refine h.induct (fun d => d.shared.codecBroken = true) hbroken ?_
  intro d d' m hd hm
  rcases exec_cases hm with ⟨a, -, rfl⟩ | ⟨l, a, r, s', bs, -, hstep, rfl⟩
  · exact hd
  · exact (step_mono hstep).codecBroken hd

/-! ## A late `Send` returns -/

variable {arg : Arg} {late : Bool} {polls : List WritePoll} {pool : List Thread}

/-- The `Send` of `arg` can run to its return, and returns an error. -/
def Fails (cfg : Cfg) (E : Encoder UInt8 κ) (arg : Arg) (s : Shared κ) (th : Thread)
    (pool : List Thread) : Prop :=
  ∃ s' late polls r pool', (prog cfg E).Leads ⟨s, th :: pool⟩
    ⟨s', .send arg late polls (.done r) :: pool'⟩ ∧ r.err ≠ none

theorem Fails.leads {pool' : List Thread}
    (hleads : (prog cfg E).Leads ⟨s, a :: pool⟩ ⟨s', b :: pool'⟩)
    (h : Fails cfg E arg s' b pool') : Fails cfg E arg s a pool := by
  obtain ⟨s₁, late, polls, r, pool₁, hleads', herr⟩ := h
  exact ⟨s₁, late, polls, r, pool₁, hleads.trans hleads', herr⟩

theorem Fails.step (hstep : (s', [b]) ∈ step cfg E s a) (h : Fails cfg E arg s' b pool) :
    Fails cfg E arg s a pool :=
  .leads (Prog.Leads.fire (p := prog cfg E) pool hstep) h

theorem fails_done {r : Result} (h : r.err ≠ none) :
    Fails cfg E arg s (.send arg late polls (.done r)) pool :=
  ⟨s, late, polls, r, pool, .refl _ _, h⟩

theorem fails_setBroken {r : Result} (h : r.err ≠ none) :
    Fails cfg E arg s (.send arg late polls (.setBroken r)) pool :=
  .step (List.mem_singleton_self _) (.step (List.mem_singleton_self _) (fails_done h))

/-- The latched error leaves the section. -/
theorem fails_out (e : Err) :
    Fails cfg E arg s (.send arg late polls (.sect (.out (some e)))) pool := by
  have herr : (Result.ofSect arg late (some e)).err ≠ none := by simp [Result.ofSect]
  refine .step (List.mem_singleton_self _) ?_
  split
  · exact fails_setBroken herr
  · exact fails_done herr

/-- Every operation of a latched codec fails. -/
theorem sectStep_latched {e : Err} {op : Op UInt8} (he : s.latched = some e) :
    sectStep cfg E s polls (.next [] (op :: todo)) = [(s, polls, .out (some e))] := by
  simp only [sectStep, he]

theorem send_latched {e : Err} {op : Op UInt8} (he : s.latched = some e) :
    (s, [Thread.send arg late polls (.sect (.out (some e)))]) ∈
      step cfg E s (.send arg late polls (.sect (.next [] (op :: todo)))) := by
  show _ ∈ (sectStep cfg E s polls (.next [] (op :: todo))).map _
  rw [sectStep_latched he]
  exact List.mem_singleton_self _

private theorem close_latched {e : Err} {op : Op UInt8} (he : s.latched = some e) :
    (s, [Thread.close polls (.sect (.out (some e)))]) ∈
      step cfg E s (.close polls (.sect (.next [] (op :: todo)))) := by
  show _ ∈ (sectStep cfg E s polls (.next [] (op :: todo))).map _
  rw [sectStep_latched he]
  exact List.mem_singleton_self _

theorem fails_next (h : s.latched.isSome) (hne : todo ≠ []) :
    Fails cfg E arg s (.send arg late polls (.sect (.next [] todo))) pool := by
  obtain ⟨e, he⟩ := Option.isSome_iff_exists.mp h
  obtain ⟨op, todo, rfl⟩ := List.exists_cons_of_ne_nil hne
  exact .step (send_latched he) (fails_out e)

private theorem fails_lock (h : s.latched.isSome) (hfree : s.lock = false) :
    Fails cfg E arg s (.send arg late polls .lock) pool := by
  have hstep : ({ s with lock := true },
      [Thread.send arg late polls (.sect (.next [] (block arg.packages)))]) ∈
        step cfg E s (.send arg late polls .lock) := by
    simp [step, sendStep, hfree]
  exact .step hstep (fails_next h (block_ne_nil _))

/-- In the section of a latched codec a call never waits for the socket. -/
theorem inSect_latched (h : s.latched.isSome) (hpc : InSect s tail pc) :
    (∃ todo, todo ≠ [] ∧ pc = .next [] todo) ∨ ∃ e, pc = .out (some e) := by
  have hnone : s.latched ≠ none := Option.isSome_iff_ne_none.mp h
  cases pc with
  | next chunks todo =>
      obtain ⟨rfl, hne⟩ := hpc.2 h
      exact Or.inl ⟨todo, hne, rfl⟩
  | poll p written last chunks todo => exact absurd hpc.1 hnone
  | judge p written last e now chunks todo => exact absurd hpc.1 hnone
  | out err =>
      cases err with
      | none => exact absurd hpc.1 hnone
      | some e => exact Or.inr ⟨e, rfl⟩

/-- The call can run on until it has given the lock back. -/
def Unlocks (cfg : Cfg) (E : Encoder UInt8 κ) (s : Shared κ) (a : Thread) : Prop :=
  ∃ s' b, s'.lock = false ∧ s'.latched.isSome ∧
    ∀ pool, (prog cfg E).Leads ⟨s, a :: pool⟩ ⟨s', b :: pool⟩

theorem Unlocks.last (h : (s', [b]) ∈ step cfg E s a) (hfree : s'.lock = false)
    (hsome : s'.latched.isSome) : Unlocks cfg E s a :=
  ⟨s', b, hfree, hsome, fun pool => Prog.Leads.fire (p := prog cfg E) pool h⟩

theorem Unlocks.step (hstep : (s', [b]) ∈ CodecConn.step cfg E s a) (h : Unlocks cfg E s' b) :
    Unlocks cfg E s a := by
  obtain ⟨s₁, b₁, hfree, hsome, hleads⟩ := h
  refine ⟨s₁, b₁, hfree, hsome, fun pool => ?_⟩
  exact (Prog.Leads.fire (p := prog cfg E) pool hstep).trans (hleads pool)

/-- **After a failed write the lock comes back**, whatever the socket does. -/
theorem inSect_unlocks (hl : Local s a) (hin : a.inSect = true) (hsome : s.latched.isSome) :
    Unlocks cfg E s a := by
  obtain ⟨e, he⟩ := Option.isSome_iff_exists.mp hsome
  cases a with
  | send arg late polls pc =>
      cases pc with
      | sect pc =>
          rcases inSect_latched hsome hl.2 with ⟨todo, hne, rfl⟩ | ⟨e', rfl⟩
          · obtain ⟨op, todo, rfl⟩ := List.exists_cons_of_ne_nil hne
            exact .step (send_latched he) (.last (List.mem_singleton_self _) rfl hsome)
          · exact .last (List.mem_singleton_self _) rfl hsome
      | _ => cases hin
  | close polls pc =>
      cases pc with
      | sect pc =>
          rcases inSect_latched hsome hl.2 with ⟨todo, hne, rfl⟩ | ⟨e', rfl⟩
          · obtain ⟨op, todo, rfl⟩ := List.exists_cons_of_ne_nil hne
            exact .step (close_latched he) (.last (List.mem_singleton_self _) rfl hsome)
          · exact .last (List.mem_singleton_self _) rfl hsome
      | _ => cases hin
  | _ => cases hin

/-- A locked lock has a holder. -/
private theorem exists_holder {c : Conf (Shared κ) Thread} (hc : (outline E).Holds c)
    (hlock : c.shared.lock = true) : ∃ a ∈ c.pool, a.inSect = true := by
  by_contra hno
  have hzero : total ((outline E).wt ()) c.pool = 0 := by
    refine total_eq_zero _ (fun a ha => ?_)
    have hout : a.inSect = false := by
      rw [← Bool.not_eq_true]
      exact fun hin => hno ⟨a, ha, hin⟩
    show a.inSect.toNat = 0
    rw [hout]
    rfl
  have hval : (outline E).val () c.shared = 1 := by
    show ((c.shared.lock.toNat : Nat) : Int) = 1
    rw [hlock]
    rfl
  rw [hc.ledger (), hzero] at hval
  cases hval

/-- A `Send` that waits for the lock gets it, and fails. -/
private theorem fails_wait (hc : (outline E).Holds ⟨s, .send arg late polls .lock :: pool⟩)
    (haborted : s.aborted = true) : Fails cfg E arg s (.send arg late polls .lock) pool := by
  have hsome := hc.shared.latch haborted
  cases hlock : s.lock with
  | false => exact fails_lock hsome hlock
  | true =>
      obtain ⟨a, ha, hin⟩ := exists_holder hc hlock
      have hmem : a ∈ pool := by
        rcases List.mem_cons.mp ha with rfl | h
        · cases hin
        · exact h
      obtain ⟨l, r, rfl⟩ := List.append_of_mem hmem
      have hunlocks : Unlocks cfg E s a := inSect_unlocks (hc.loc a ha) hin hsome
      obtain ⟨s', b, hfree, hsome', hleads⟩ := hunlocks
      have hfront : (Conf.mk s (.send arg late polls .lock :: (l ++ a :: r))).Equiv
          ⟨s, a :: .send arg late polls .lock :: (l ++ r)⟩ :=
        ⟨rfl, (List.perm_middle.cons _).trans (List.Perm.swap ..)⟩
      have hback : (Conf.mk s' (b :: .send arg late polls .lock :: (l ++ r))).Equiv
          ⟨s', .send arg late polls .lock :: b :: (l ++ r)⟩ := ⟨rfl, List.Perm.swap ..⟩
      refine .leads ((Prog.Leads.of_equiv hfront).trans ((hleads _).trans (.of_equiv hback))) ?_
      exact fails_lock hsome' hfree

/-- A `Send` either fails at once or goes for the lock. -/
theorem send_check (cfg : Cfg) (E : Encoder UInt8 κ) (s : Shared κ) (arg : Arg) (late : Bool)
    (polls : List WritePoll) :
    (∃ s' r, (s', [.send arg s.aborted polls (.done r)]) ∈
        step cfg E s (.send arg late polls .check) ∧ r.err ≠ none) ∨
      (s, [.send arg s.aborted polls .lock]) ∈ step cfg E s (.send arg late polls .check) := by
  simp only [step, sendStep]
  split
  · exact Or.inl ⟨_, _, List.mem_singleton_self _, by simp⟩
  · split
    · exact Or.inl ⟨_, _, List.mem_singleton_self _, by simp⟩
    · exact Or.inr (List.mem_singleton_self _)

/-- **A `Send` that starts after a failed write can run to its return, and fails.** -/
theorem send_returns {pc : SendPc} (hc : (outline E).Holds ⟨s, .send arg late polls pc :: pool⟩)
    (haborted : s.aborted = true) (hlate : pc = .check ∨ late = true) :
    Fails cfg E arg s (.send arg late polls pc) pool := by
  have hl := hc.loc _ (List.mem_cons_self ..)
  have hsome := hc.shared.latch haborted
  cases pc with
  | check =>
      rcases send_check cfg E s arg late polls with ⟨s', r, hstep, herr⟩ | hstep
      · exact .step hstep (fails_done herr)
      · have hfire : (s, [.send arg s.aborted polls .lock]) ∈
            (prog cfg E).step s (.send arg late polls .check) := hstep
        obtain ⟨m, hm⟩ := exec_fire [] pool hfire
        exact .step hstep (fails_wait ((outline_valid cfg E).holds_exec hc hm) haborted)
  | lock => exact fails_wait hc haborted
  | sect pc =>
      rcases inSect_latched hsome hl.2 with ⟨todo, hne, rfl⟩ | ⟨e, rfl⟩
      · exact fails_next hsome hne
      · exact fails_out e
  | setBroken r => exact fails_setBroken (hl (hlate.resolve_left (by simp)))
  | closeSock r =>
      exact .step (List.mem_singleton_self _) (fails_done (hl (hlate.resolve_left (by simp))))
  | done r => exact fails_done (hl (hlate.resolve_left (by simp)))

/-! ## The result -/

/-- `Send` and `recv` return `ErrCodecStreamBroken` in their first step, which leaves the
reader, the writer and the socket alone. -/
structure FailsFast (cfg : Cfg) (E : Encoder UInt8 κ) (s : Shared κ) : Prop where
  send : ∀ arg late polls, step cfg E s (.send arg late polls .check) =
    [(s.record ⟨arg, s.aborted, 0, some .codecStreamBroken⟩,
      [.send arg s.aborted polls (.done ⟨arg, s.aborted, 0, some .codecStreamBroken⟩)])]
  recv : ∀ outcome, step cfg E s (.recv outcome .check) =
    [(s, [.recv outcome (.done ⟨0, some .codecStreamBroken⟩)])]

private theorem failsFast_of_codecBroken (h : s.codecBroken = true) : FailsFast cfg E s where
  send := by
    intro arg late polls
    simp only [step, sendStep]
    rw [if_pos h]
  recv := by
    intro outcome
    simp only [step, recvStep, h, if_true]

/-- **Nothing follows an abandoned codec write.**  In every reachable state: once a `Write`
of the polling writer has returned an error, the wire never changes again, and a `Send` that
starts from then on can always run to its return; a `Send` that started from then on and has
returned has returned an error; and `codecBroken` is never cleared and makes `Send` and
`recv` fail fast. -/
theorem nothing_follows_abandoned_write (cfg : Cfg) (E : Encoder UInt8 κ)
    {c : Conf (Shared κ) Thread} (h : (prog cfg E).Reaches (initial E) c) :
    (c.shared.aborted = true →
      (∀ c', (prog cfg E).Reaches c c' → c'.shared.wire = c.shared.wire) ∧
      ∀ l r arg late polls pc, c.pool = l ++ .send arg late polls pc :: r →
        pc = .check ∨ late = true → Fails cfg E arg c.shared (.send arg late polls pc) (l ++ r)) ∧
    (∀ arg polls r, .send arg true polls (.done r) ∈ c.pool → r.err ≠ none) ∧
    (c.shared.codecBroken = true →
      ∀ c', (prog cfg E).Reaches c c' → c'.shared.codecBroken = true ∧
        FailsFast cfg E c'.shared) := by
  have hc := holds_reaches h
  refine ⟨fun haborted => ⟨fun c' => wire_reaches hc haborted, ?_⟩, ?_, ?_⟩
  · intro l r arg late polls pc hpool hlate
    refine send_returns (hc.of_equiv ⟨rfl, ?_⟩) haborted hlate
    rw [hpool]
    exact List.perm_middle
  · intro arg polls r hmem
    exact hc.loc _ hmem rfl
  · intro hbroken c' hc'
    have hb := codecBroken_reaches hbroken hc'
    exact ⟨hb, failsFast_of_codecBroken hb⟩

/-- A `Send` of two bytes gets one of them out and stalls.  A second `Send` passes the test
of `codecBroken` before the first one has set it. -/
def stalledRun : List (Move Thread) :=
  [.start (.send (.bytes [1, 2]) false [⟨0, 1, none, 1, some .timeout, 0, 5⟩] .check),
    .fire 0 0, .fire 0 0, .fire 0 0, .fire 0 0, .fire 0 0, .fire 0 0,
    .start (.send (.buffers [[3]]) false [] .check), .fire 1 0, .fire 0 0, .fire 1 0, .fire 1 0,
    .fire 1 0, .fire 0 0, .fire 0 0, .fire 1 0, .fire 1 0]

/-- The second `Send` fails, and one byte is all that ever reaches the wire. -/
theorem nothing_follows_abandoned_write_stalled :
    ∃ c, (prog ⟨1⟩ stored).run (initial stored) stalledRun = some c ∧
      c.shared.aborted = true ∧ c.shared.codecBroken = true ∧
      .send (.buffers [[3]]) true [] (.done ⟨.buffers [[3]], true, 0, some .codecStreamBroken⟩) ∈
        c.pool ∧
      ∀ c', (prog ⟨1⟩ stored).Reaches c c' → c'.shared.wire = [1] ∧
        FailsFast ⟨1⟩ stored c'.shared := by
  refine ⟨_, rfl, rfl, rfl, by decide, ?_⟩
  intro c' hc'
  have hmain := nothing_follows_abandoned_write ⟨1⟩ stored ⟨stalledRun, rfl⟩
  exact ⟨(hmain.1 rfl).1 c' hc', (hmain.2.2 rfl c' hc').2⟩

end Getty.Transport.CodecConn
