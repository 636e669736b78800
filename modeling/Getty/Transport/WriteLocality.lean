import Getty.Transport.Basic
import Getty.Transport.WriteTimeout

/-!
# The write timeout while others write

`WritePkg` with a timeout of its own overwrites the write timeout of the connection for the time
of its send.  All other calls that send do so under the same `packetLock`: `WriteBytes` and
`WriteBytesArray` in one of its two modes, depending on what they write, and `Send` in the shared
one.  Here such calls run beside each other, in any number and any order, and no
`SetWriteTimeout` comes between.

## Main results

* `outline_valid` — the invariant survives every step.
* `write_timeout_local` — what the write timeout is while a call sends, and at other times.
-/

namespace Getty.Transport.WriteLocality

open Getty.Verified.ThreadPool
open Getty.Transport.WriteTimeout (Shared WritePc writeStep)

/-! ## The program -/

/-- A call other than `WritePkg`, with the sizes of its packages. -/
inductive Call where
  | writeBytes (size : Nat)
  | writeBytesArray (sizes : List Nat)
  | send
  deriving Repr, DecidableEq

/-- The mode of `packetLock`, and how many times `conn.Send` is called if nothing fails. -/
structure Plan where
  exclusive : Bool
  sends : Nat
  deriving Repr, DecidableEq

def Call.method : Call → WriteMethod
  | .writeBytes size => .writeBytes size
  | .writeBytesArray sizes => .writeBytesArray sizes
  | .send => .send

/-- `WriteBytesArray` hands a single package to `WriteBytes`, and on UDP the merged ones. -/
def Call.sends (type : ConnType) : Call → Nat
  | .writeBytes size => packageNum type size
  | .writeBytesArray [size] => packageNum type size
  | .writeBytesArray sizes =>
      match type with
      | .tcp => 1
      | .ws => sizes.length
      | .other => packageNum type sizes.sum
  | .send => 1

def Call.plan (type : ConnType) (call : Call) : Plan :=
  ⟨call.method.exclusive type, call.sends type⟩

inductive CallPc where
  | enter
  | lock
  | conn
  | send (left : Nat)
  | unlock
  deriving Repr, DecidableEq

inductive Thread where
  | pkg (th : WriteTimeout.Thread)
  | write (call : Call) (pc : CallPc)
  deriving Repr, DecidableEq

/-- `packetLock.Lock`. -/
def Shared.lock (s : Shared) : Option Shared :=
  if s.locked = false ∧ s.readers = 0 then some { s with locked := true } else none

/-- `packetLock.RLock`. -/
def Shared.rlock (s : Shared) : Option Shared :=
  if s.locked = false then some { s with readers := s.readers + 1 } else none

/-- A call other than `WritePkg`.  It may find the session closed or without a connection.  A
send that fails or panics, and a package above the websocket limit, are followed by the deferred
unlock. -/
def callStep (type : ConnType) (s : Shared) (call : Call) : CallPc → List (Shared × List Thread)
  | .enter =>
      match call with
      | .send => [(s, [.write call .lock])]
      | _ => [(s, []), (s, [.write call .lock])]
  | .lock =>
      ((if (call.plan type).exclusive then Shared.lock s else Shared.rlock s).map fun s' =>
        (s', [.write call .conn])).toList
  | .conn => [(s, [.write call .unlock]), (s, [.write call (.send (call.plan type).sends)])]
  | .send 0 => [(s, [.write call .unlock])]
  | .send (left + 1) => [(s, [.write call .unlock]), (s, [.write call (.send left)])]
  | .unlock =>
      if (call.plan type).exclusive then [({ s with locked := false }, [])]
      else [({ s with readers := s.readers - 1 }, [])]

def step (type : ConnType) (s : Shared) : Thread → List (Shared × List Thread)
  | .pkg th => liftOutcomes (fun x _ => x) .pkg (WriteTimeout.step s th)
  | .write call pc => callStep type s call pc

/-- Any call but `SetWriteTimeout` may be made at any time. -/
def prog (type : ConnType) : Prog Shared Thread where
  entry _
    | .pkg (.writePkg _ .enter) => true
    | .write _ .enter => true
    | _ => false
  step := step type

/-- The write timeout that the constructor and some calls of `SetWriteTimeout` leave; one with a
value below 1 panics. -/
def configured (values : List Int) : Int :=
  values.foldl (fun w v => if v < 1 then w else v) 1000000000

def initial (values : List Int) (rTimeout : Int) : Conf Shared Thread :=
  ⟨⟨configured values, rTimeout, false, 0, none, []⟩, []⟩

/-- The thread is in `conn.Send`. -/
def Thread.sending : Thread → Bool
  | .pkg (.writePkg _ (.send _)) => true
  | .write _ (.send (_ + 1)) => true
  | _ => false

/-- The write timeout that a thread has to send with. -/
def Thread.timeout (config : Int) : Thread → Int
  | .pkg (.writePkg timeout _) => if 0 < timeout then timeout else config
  | _ => config

/-- A `WritePkg` between its override and its restore. -/
def Thread.overriding : Thread → Bool
  | .pkg (.writePkg _ (.storeRead _)) => true
  | .pkg (.writePkg _ (.send (some _))) => true
  | .pkg (.writePkg _ (.restore _)) => true
  | _ => false

/-! ## The invariant -/

/-- The two modes of `packetLock`. -/
inductive Mode where
  | exclusive
  | shared
  deriving Repr, DecidableEq

/-- The mode in which a thread takes the lock. -/
def Thread.mode (type : ConnType) : Thread → Mode
  | .pkg (.writePkg timeout _) => if 0 < timeout then .exclusive else .shared
  | .write call _ => if (call.plan type).exclusive then .exclusive else .shared
  | _ => .shared

/-- The thread holds the lock. -/
def Thread.holds : Thread → Bool
  | .pkg (.writePkg _ .enter) => false
  | .pkg (.writePkg _ .lock) => false
  | .pkg (.writePkg _ _) => true
  | .pkg _ => false
  | .write _ .enter => false
  | .write _ .lock => false
  | .write _ _ => true

/-- What holds of the connection in every state. -/
structure Inv (config : Int) (s : Shared) : Prop where
  positive : 1 ≤ config
  free : s.locked = false → s.wTimeout = config
  alone : s.locked = true → s.readers = 0

/-- What a thread knows about the write timeout if it holds the lock exclusively. -/
def Local (config : Int) (type : ConnType) (s : Shared) : Thread → Prop
  | .pkg (.writePkg _ .enter) => True
  | .pkg (.writePkg _ .lock) => True
  | .pkg (.writePkg timeout .conn) => 0 < timeout → s.wTimeout = config
  | .pkg (.writePkg timeout .save) => 0 < timeout ∧ s.wTimeout = config
  | .pkg (.writePkg timeout (.store orig)) => 0 < timeout ∧ orig = config ∧ s.wTimeout = config
  | .pkg (.writePkg timeout (.storeRead orig)) => 0 < timeout ∧ orig = config ∧ s.wTimeout = timeout
  | .pkg (.writePkg timeout (.send (some orig))) =>
      0 < timeout ∧ orig = config ∧ s.wTimeout = timeout
  | .pkg (.writePkg timeout (.send none)) => ¬ 0 < timeout
  | .pkg (.writePkg timeout (.restore orig)) => 0 < timeout ∧ orig = config ∧ s.wTimeout = timeout
  | .pkg (.writePkg timeout (.restoreRead _)) => 0 < timeout ∧ s.wTimeout = config
  | .pkg (.writePkg timeout .unlock) => 0 < timeout → s.wTimeout = config
  | .pkg _ => False
  | .write call pc =>
      (Thread.write call pc).holds = true → (Thread.write call pc).mode type = .exclusive →
        s.wTimeout = config

def val (mode : Mode) (s : Shared) : Nat :=
  match mode with
  | .exclusive => s.locked.toNat
  | .shared => s.readers

def wt (type : ConnType) (mode : Mode) (th : Thread) : Nat :=
  if th.holds = true ∧ th.mode type = mode then 1 else 0

def outline (config : Int) (type : ConnType) : Outline Shared Thread Mode where
  shared := Inv config
  loc := Local config type
  val mode s := val mode s
  wt := wt type

variable {config : Int} {type : ConnType} {s s' : Shared} {a b : Thread} {bs : List Thread}

/-- What a thread knows depends on the write timeout only. -/
private theorem local_congr (hw : s'.wTimeout = s.wTimeout) (hloc : Local config type s b) :
    Local config type s' b := by
  unfold Local at hloc ⊢
  rw [hw]
  exact hloc

/-- A thread that does not hold the lock exclusively knows nothing about it. -/
theorem local_of_not_exclusive (h : wt type .exclusive b = 0) (hloc : Local config type s b) :
    Local config type s' b := by
  have hnot : ¬ (b.holds = true ∧ b.mode type = .exclusive) := by
    intro hboth
    rw [wt, if_pos hboth] at h
    cases h
  cases b with
  | write call pc => exact fun hholds hmode => absurd ⟨hholds, hmode⟩ hnot
  | pkg th =>
      cases th with
      | setWriteTimeout w => exact hloc
      | setRead w => exact hloc
      | writePkg timeout pc =>
          have hpos (hholds : (Thread.pkg (.writePkg timeout pc)).holds = true) :
              ¬ 0 < timeout := fun hpos => hnot ⟨hholds, if_pos hpos⟩
          cases pc with
          | enter => exact True.intro
          | lock => exact True.intro
          | conn => exact fun h => absurd h (hpos rfl)
          | unlock => exact fun h => absurd h (hpos rfl)
          | send orig =>
              cases orig with
              | none => exact hloc
              | some orig => exact absurd hloc.1 (hpos rfl)
          | save => exact absurd hloc.1 (hpos rfl)
          | store orig => exact absurd hloc.1 (hpos rfl)
          | storeRead orig => exact absurd hloc.1 (hpos rfl)
          | restore orig => exact absurd hloc.1 (hpos rfl)
          | restoreRead orig => exact absurd hloc.1 (hpos rfl)

/-! ## What a step does -/

/-- The outcome `s'`, `bs` of a step of `a` keeps the invariant and the ledgers, and leaves the
write timeout alone if `a` does not hold the lock exclusively. -/
structure Keeps (config : Int) (type : ConnType) (s : Shared) (a : Thread) (s' : Shared)
    (bs : List Thread) : Prop where
  quiet : wt type .exclusive a = 0 → s'.wTimeout = s.wTimeout
  keeps : (outline config type).Keeps s a s' bs

theorem keeps_end (hinv : Inv config s) (hfree : a.holds = false) : Keeps config type s a s [] :=
  ⟨fun _ => rfl, Outline.keeps_end hinv fun mode => by simp [outline, wt, hfree]⟩

/-- The thread goes on, and the lock stays as it is. -/
theorem keeps_goOn (hinv : Inv config s') (hloc : Local config type s' b)
    (hlocked : s'.locked = s.locked) (hreaders : s'.readers = s.readers)
    (hholds : b.holds = a.holds) (hmode : b.mode type = a.mode type)
    (hquiet : wt type .exclusive a = 0 → s'.wTimeout = s.wTimeout) :
    Keeps config type s a s' [b] := by
  refine ⟨hquiet, Outline.keeps_one hinv hloc fun mode => ?_⟩
  have hval : val mode s' = val mode s := by
    cases mode with
    | exclusive => simp [val, hlocked]
    | shared => simp [val, hreaders]
  have hwt : wt type mode b = wt type mode a := by simp [wt, hholds, hmode]
  simp only [outline, hval, hwt]

/-- `packetLock` is taken. -/
def Takes (mode : Mode) (s s' : Shared) : Prop :=
  s.locked = false ∧
    match mode with
    | .exclusive => s.readers = 0 ∧ s' = { s with locked := true }
    | .shared => s' = { s with readers := s.readers + 1 }

/-- Whoever takes the lock finds the configured timeout. -/
theorem Takes.wTimeout {mode : Mode} (h : Takes mode s s') (hinv : Inv config s) :
    s'.wTimeout = config := by
  obtain ⟨hfree, h⟩ := h
  cases mode with
  | exclusive =>
      obtain ⟨-, rfl⟩ := h
      exact hinv.free hfree
  | shared =>
      subst h
      exact hinv.free hfree

theorem keeps_lock (hinv : Inv config s) (hloc : Local config type s' b)
    (h : Takes (a.mode type) s s') (ha : a.holds = false) (hb : b.holds = true)
    (hmode : b.mode type = a.mode type) : Keeps config type s a s' [b] := by
  have hw := h.wTimeout hinv
  obtain ⟨hfree, htakes⟩ := h
  refine ⟨fun _ => hw.trans (hinv.free hfree).symm,
    Outline.keeps_one ⟨hinv.positive, fun _ => hw, ?_⟩ hloc fun mode => ?_⟩
  · cases hm : a.mode type with
    | exclusive =>
        rw [hm] at htakes
        obtain ⟨hreaders, rfl⟩ := htakes
        exact fun _ => hreaders
    | shared =>
        rw [hm] at htakes
        subst htakes
        intro hlocked
        cases hfree.symm.trans hlocked
  · simp only [outline, wt, ha, hb, hmode, Bool.false_eq_true, false_and, if_false, true_and]
    cases hm : a.mode type with
    | exclusive =>
        rw [hm] at htakes
        obtain ⟨hreaders, rfl⟩ := htakes
        cases mode with
        | exclusive => simp [val, hfree]
        | shared => simp [val]
    | shared =>
        rw [hm] at htakes
        subst htakes
        cases mode with
        | exclusive => simp [val]
        | shared => simp [val]

/-- `packetLock` is released. -/
def Frees (mode : Mode) (s s' : Shared) : Prop :=
  match mode with
  | .exclusive => s' = { s with locked := false }
  | .shared => s' = { s with readers := s.readers - 1 }

theorem keeps_unlock (hinv : Inv config s) (ha : a.holds = true)
    (hw : a.mode type = .exclusive → s.wTimeout = config)
    (hbook : ∀ mode, (wt type mode a : Int) ≤ val mode s) (h : Frees (a.mode type) s s') :
    Keeps config type s a s' [] := by
  have hone : wt type (a.mode type) a = 1 := by simp [wt, ha]
  have hheld := hbook (a.mode type)
  rw [hone] at hheld
  cases hm : a.mode type with
  | exclusive =>
      rw [hm] at h hheld
      obtain rfl : s' = { s with locked := false } := h
      have hlocked : s.locked = true := by
        cases hl : s.locked with
        | true => rfl
        | false => simp [val, hl] at hheld
      refine ⟨fun _ => rfl, Outline.keeps_end
        ⟨hinv.positive, fun _ => hw hm, fun h => by cases h⟩ fun mode => ?_⟩
      cases mode with
      | exclusive => simp [outline, wt, ha, hm, val, hlocked]
      | shared => simp [outline, wt, hm, val]
  | shared =>
      rw [hm] at h hheld
      obtain rfl : s' = { s with readers := s.readers - 1 } := h
      have hpos : 1 ≤ s.readers := by simpa [val] using hheld
      refine ⟨fun _ => rfl, Outline.keeps_end
        ⟨hinv.positive, hinv.free, fun hlocked => ?_⟩ fun mode => ?_⟩
      · have hnone := hinv.alone hlocked
        omega
      · cases mode with
        | exclusive => simp [outline, wt, hm, val]
        | shared =>
            simp only [outline, wt, ha, hm, and_self, if_true, val]
            omega

private theorem takes_of_lock (h : Shared.lock s = some s') : Takes .exclusive s s' := by
  unfold Shared.lock at h
  split at h
  · next hfree => exact ⟨hfree.1, hfree.2, (Option.some.inj h).symm⟩
  · cases h

private theorem takes_of_rlock (h : Shared.rlock s = some s') : Takes .shared s s' := by
  unfold Shared.rlock at h
  split at h
  · next hfree => exact ⟨hfree, (Option.some.inj h).symm⟩
  · cases h

/-- A call other than `WritePkg` goes on with what it knows. -/
private theorem keeps_call {call : Call} {pc pc' : CallPc} (hinv : Inv config s)
    (hloc : Local config type s (.write call pc))
    (hholds : (Thread.write call pc').holds = (Thread.write call pc).holds) :
    Keeps config type s (.write call pc) s [.write call pc'] :=
  keeps_goOn hinv (fun hh hmode => hloc (hholds ▸ hh) hmode) rfl rfl hholds rfl (fun _ => rfl)

/-- **Step lemma** for the calls other than `WritePkg`. -/
theorem callStep_keeps {call : Call} {pc : CallPc} (hinv : Inv config s)
    (hloc : Local config type s (.write call pc))
    (hbook : ∀ mode, (wt type mode (.write call pc) : Int) ≤ val mode s)
    (h : (s', bs) ∈ callStep type s call pc) : Keeps config type s (.write call pc) s' bs := by
  cases pc with
  | enter =>
      have hgo : Keeps config type s (.write call .enter) s [.write call .lock] :=
        keeps_call hinv hloc rfl
      simp only [callStep] at h
      split at h
      · cases List.mem_singleton.mp h
        exact hgo
      · simp only [List.mem_cons, List.not_mem_nil, or_false, Prod.mk.injEq] at h
        rcases h with ⟨rfl, rfl⟩ | ⟨rfl, rfl⟩
        · exact keeps_end hinv rfl
        · exact hgo
  | lock =>
      simp only [callStep, Option.mem_toList, Option.map_eq_some_iff, Prod.mk.injEq] at h
      obtain ⟨s₁, htake, rfl, rfl⟩ := h
      have htakes : Takes ((Thread.write call .lock).mode type) s s₁ := by
        rw [Thread.mode]
        split at htake
        · next hx => exact if_pos hx ▸ takes_of_lock htake
        · next hx => exact if_neg hx ▸ takes_of_rlock htake
      exact keeps_lock hinv (fun _ _ => htakes.wTimeout hinv) htakes rfl rfl rfl
  | conn =>
      simp only [callStep, List.mem_cons, List.not_mem_nil, or_false, Prod.mk.injEq] at h
      rcases h with ⟨rfl, rfl⟩ | ⟨rfl, rfl⟩
      · exact keeps_call hinv hloc rfl
      · exact keeps_call hinv hloc rfl
  | send left =>
      cases left with
      | zero =>
          cases List.mem_singleton.mp h
          exact keeps_call hinv hloc rfl
      | succ left =>
          simp only [callStep, List.mem_cons, List.not_mem_nil, or_false, Prod.mk.injEq] at h
          rcases h with ⟨rfl, rfl⟩ | ⟨rfl, rfl⟩
          · exact keeps_call hinv hloc rfl
          · exact keeps_call hinv hloc rfl
  | unlock =>
      have hframe : bs = [] ∧ Frees ((Thread.write call .unlock).mode type) s s' := by
        rw [Thread.mode]
        simp only [callStep] at h
        split at h
        · next hx =>
            cases List.mem_singleton.mp h
            rw [if_pos hx]
            exact ⟨rfl, rfl⟩
        · next hx =>
            cases List.mem_singleton.mp h
            rw [if_neg hx]
            exact ⟨rfl, rfl⟩
      obtain ⟨rfl, hfrees⟩ := hframe
      exact keeps_unlock hinv rfl (hloc rfl) hbook hfrees

/-- A step of a `WritePkg` that holds the lock exclusively and keeps it. -/
private theorem keeps_held {timeout : Int} {pc pc' : WritePc} (hpos : 0 < timeout)
    (hinv : Inv config s) (hloc : Local config type s' (.pkg (.writePkg timeout pc')))
    (hlocked : s'.locked = s.locked) (hreaders : s'.readers = s.readers)
    (hholds : (Thread.pkg (.writePkg timeout pc)).holds = true)
    (hholds' : (Thread.pkg (.writePkg timeout pc')).holds = true)
    (hbook : ∀ mode, (wt type mode (.pkg (.writePkg timeout pc)) : Int) ≤ val mode s) :
    Keeps config type s (.pkg (.writePkg timeout pc)) s' [.pkg (.writePkg timeout pc')] := by
  have hone : wt type .exclusive (.pkg (.writePkg timeout pc)) = 1 := if_pos ⟨hholds, if_pos hpos⟩
  have hheld : s.locked = true := by
    have hle := hbook .exclusive
    rw [hone] at hle
    cases hl : s.locked with
    | true => rfl
    | false => simp [val, hl] at hle
  refine keeps_goOn ⟨hinv.positive, ?_, ?_⟩ hloc hlocked hreaders (hholds'.trans hholds.symm)
    rfl ?_
  · intro hfree
    rw [hlocked, hheld] at hfree
    cases hfree
  · rw [hlocked, hreaders]
    exact hinv.alone
  · intro hzero
    rw [hone] at hzero
    cases hzero

/-- **Step lemma** for `WritePkg`. -/
theorem writeStep_keeps {timeout : Int} {pc : WritePc} {cs : List WriteTimeout.Thread}
    (hinv : Inv config s) (hloc : Local config type s (.pkg (.writePkg timeout pc)))
    (hbook : ∀ mode, (wt type mode (.pkg (.writePkg timeout pc)) : Int) ≤ val mode s)
    (h : (s', cs) ∈ writeStep s timeout pc) :
    Keeps config type s (.pkg (.writePkg timeout pc)) s' (cs.map .pkg) := by
  cases pc with
  | enter =>
      simp only [writeStep, List.mem_cons, List.not_mem_nil, or_false, Prod.mk.injEq] at h
      rcases h with ⟨rfl, rfl⟩ | ⟨rfl, rfl⟩
      · exact keeps_end hinv rfl
      · exact keeps_goOn hinv True.intro rfl rfl rfl rfl (fun _ => rfl)
  | lock =>
      have htakes : cs = [.writePkg timeout .conn] ∧
          Takes ((Thread.pkg (.writePkg timeout .lock)).mode type) s s' := by
        rw [Thread.mode]
        simp only [writeStep] at h
        split at h
        · next hpos =>
            split at h
            · next hfree =>
                cases List.mem_singleton.mp h
                rw [if_pos hpos]
                exact ⟨rfl, hfree.1, hfree.2, rfl⟩
            · cases h
        · next hpos =>
            split at h
            · next hfree =>
                cases List.mem_singleton.mp h
                rw [if_neg hpos]
                exact ⟨rfl, hfree, rfl⟩
            · cases h
      obtain ⟨rfl, htakes⟩ := htakes
      exact keeps_lock hinv (fun _ => htakes.wTimeout hinv) htakes rfl rfl rfl
  | conn =>
      simp only [writeStep, List.mem_cons, List.not_mem_nil, or_false, Prod.mk.injEq] at h
      rcases h with ⟨rfl, rfl⟩ | ⟨rfl, rfl⟩
      · exact keeps_goOn hinv hloc rfl rfl rfl rfl (fun _ => rfl)
      · by_cases hpos : 0 < timeout
        · rw [if_pos hpos]
          exact keeps_goOn hinv ⟨hpos, hloc hpos⟩ rfl rfl rfl rfl (fun _ => rfl)
        · rw [if_neg hpos]
          exact keeps_goOn hinv hpos rfl rfl rfl rfl (fun _ => rfl)
  | save =>
      cases List.mem_singleton.mp h
      exact keeps_held hloc.1 hinv ⟨hloc.1, hloc.2, hloc.2⟩ rfl rfl rfl rfl hbook
  | store orig =>
      cases List.mem_singleton.mp h
      exact keeps_held hloc.1 hinv ⟨hloc.1, hloc.2.1, rfl⟩ rfl rfl rfl rfl hbook
  | storeRead orig =>
      cases List.mem_singleton.mp h
      exact keeps_held hloc.1 hinv hloc rfl rfl rfl rfl hbook
  | send orig =>
      cases orig with
      | none =>
          cases List.mem_singleton.mp h
          exact keeps_goOn hinv (fun hpos => absurd hpos hloc) rfl rfl rfl rfl (fun _ => rfl)
      | some orig =>
          cases List.mem_singleton.mp h
          exact keeps_held hloc.1 hinv hloc rfl rfl rfl rfl hbook
  | restore orig =>
      obtain ⟨hpos, rfl, -⟩ := hloc
      have horig : ¬ orig < 1 := by
        have hpositive := hinv.positive
        omega
      simp only [writeStep, if_neg horig] at h
      cases List.mem_singleton.mp h
      exact keeps_held hpos hinv ⟨hpos, rfl⟩ rfl rfl rfl rfl hbook
  | restoreRead orig =>
      cases List.mem_singleton.mp h
      exact keeps_held hloc.1 hinv (fun _ => hloc.2) rfl rfl rfl rfl hbook
  | unlock =>
      have hframe : cs = [] ∧
          Frees ((Thread.pkg (.writePkg timeout .unlock)).mode type) s s' := by
        rw [Thread.mode]
        simp only [writeStep] at h
        split at h
        · next hpos =>
            cases List.mem_singleton.mp h
            rw [if_pos hpos]
            exact ⟨rfl, rfl⟩
        · next hpos =>
            cases List.mem_singleton.mp h
            rw [if_neg hpos]
            exact ⟨rfl, rfl⟩
      obtain ⟨rfl, hfrees⟩ := hframe
      refine keeps_unlock hinv rfl ?_ hbook hfrees
      intro hmode
      by_cases hpos : 0 < timeout
      · exact hloc hpos
      · rw [Thread.mode, if_neg hpos] at hmode
        cases hmode

/-- **Step lemma.** -/
theorem step_keeps (hinv : Inv config s) (hloc : Local config type s a)
    (hbook : ∀ mode, (wt type mode a : Int) ≤ val mode s) (h : (s', bs) ∈ step type s a) :
    Keeps config type s a s' bs := by
  cases a with
  | write call pc => exact callStep_keeps hinv hloc hbook h
  | pkg th =>
      rw [step] at h
      obtain ⟨s₁, cs, hmem, rfl, rfl⟩ := mem_liftOutcomes h
      cases th with
      | setWriteTimeout w => exact hloc.elim
      | setRead w => exact hloc.elim
      | writePkg timeout pc => exact writeStep_keeps hinv hloc hbook hmem

theorem outline_valid (config : Int) (type : ConnType) :
    (outline config type).Valid (prog type) where
  entry := by
    intro s a _ hentry
    cases a with
    | write call pc =>
        cases pc with
        | enter => exact ⟨(fun hholds => by cases hholds), fun _ => rfl⟩
        | _ => cases hentry
    | pkg th =>
        cases th with
        | setWriteTimeout w => cases hentry
        | setRead w => cases hentry
        | writePkg timeout pc =>
            cases pc with
            | enter => exact ⟨True.intro, fun _ => rfl⟩
            | _ => cases hentry
  own := by
    intro s a s' bs hinv hloc hbook h
    exact (step_keeps hinv hloc hbook h).keeps
  other := by
    intro s a b s' bs hinv hloc hlocb hbook h
    have hown : ∀ mode, (wt type mode a : Int) ≤ val mode s := by
      intro mode
      have hpair : (wt type mode a : Int) + wt type mode b ≤ val mode s := hbook mode
      omega
    by_cases hzero : wt type .exclusive a = 0
    · exact local_congr ((step_keeps hinv hloc hown h).quiet hzero) hlocb
    · -- two threads cannot hold the lock exclusively
      have hother : wt type .exclusive b = 0 := by
        have hpair : (wt type .exclusive a : Int) + wt type .exclusive b ≤ s.locked.toNat :=
          hbook .exclusive
        have hle := Bool.toNat_le s.locked
        omega
      exact local_of_not_exclusive hother hlocb

/-! ## Whole runs -/

private theorem configured_pos (values : List Int) : 1 ≤ configured values := by
  have hfold : ∀ w : Int, 1 ≤ w →
      1 ≤ values.foldl (fun w v => if v < 1 then w else v) w := by
    induction values with
    | nil => exact fun w hw => hw
    | cons v values ih =>
        intro w hw
        rw [List.foldl_cons]
        apply ih
        split <;> omega
  exact hfold 1000000000 (by decide)

variable {c : Conf Shared Thread}

/-- A lock that is held exclusively has a holder. -/
theorem exists_exclusive (hc : (outline config type).Holds c) (hlocked : c.shared.locked = true) :
    ∃ a ∈ c.pool, a.holds = true ∧ a.mode type = .exclusive := by
  by_contra hno
  have hzero : total (wt type .exclusive) c.pool = 0 := by
    refine total_eq_zero _ (fun a ha => if_neg fun hboth => hno ⟨a, ha, hboth⟩)
  have hledger : (c.shared.locked.toNat : Int) = total (wt type .exclusive) c.pool :=
    hc.ledger .exclusive
  rw [hzero, hlocked] at hledger
  cases hledger

/-- A thread that holds the lock in the shared mode keeps it from being held exclusively. -/
private theorem wTimeout_of_shared (hc : (outline config type).Holds c) (ha : a ∈ c.pool)
    (hholds : a.holds = true) (hmode : a.mode type = .shared) : c.shared.wTimeout = config := by
  have hle : (wt type .shared a : Int) ≤ c.shared.readers := hc.weight_le ha .shared
  rw [wt, if_pos ⟨hholds, hmode⟩] at hle
  apply hc.shared.free
  cases hlocked : c.shared.locked with
  | false => rfl
  | true =>
      have hnone := hc.shared.alone hlocked
      omega

/-- A thread that holds the lock exclusively and does not override finds the configured value. -/
private theorem wTimeout_of_exclusive (hloc : Local config type s a) (hholds : a.holds = true)
    (hmode : a.mode type = .exclusive) (hnot : a.overriding = false) : s.wTimeout = config := by
  cases a with
  | write call pc => exact hloc hholds hmode
  | pkg th =>
      cases th with
      | setWriteTimeout w => exact hloc.elim
      | setRead w => exact hloc.elim
      | writePkg timeout pc =>
          have hpos : 0 < timeout := by
            by_contra hneg
            rw [Thread.mode, if_neg hneg] at hmode
            cases hmode
          cases pc with
          | enter => cases hholds
          | lock => cases hholds
          | conn => exact hloc hpos
          | unlock => exact hloc hpos
          | save => exact hloc.2
          | store orig => exact hloc.2.2
          | storeRead orig => cases hnot
          | restore orig => cases hnot
          | restoreRead orig => exact hloc.2
          | send orig =>
              cases orig with
              | none => exact absurd hpos hloc
              | some orig => cases hnot

/-- **Per-call timeouts stay local.**  In every state of every run of `WritePkg`, `WriteBytes`,
`WriteBytesArray` and `Send` calls: while a call is in `conn.Send`, the write timeout is its own
one, if it is a `WritePkg` with a timeout, and else the configured one; and it is the configured
one whenever no `WritePkg` is between its override and its restore. -/
theorem write_timeout_local (type : ConnType) (values : List Int) (rTimeout : Int)
    (c : Conf Shared Thread) (hreach : (prog type).Reaches (initial values rTimeout) c) :
    (∀ a ∈ c.pool, a.sending = true → c.shared.wTimeout = a.timeout (configured values)) ∧
    ((∀ a ∈ c.pool, a.overriding = false) → c.shared.wTimeout = configured values) := by
  have h0 : (outline (configured values) type).Holds (initial values rTimeout) := by
    refine ⟨⟨configured_pos values, fun _ => rfl, fun _ => rfl⟩, by simp [initial], ?_⟩
    intro mode
    cases mode <;> rfl
  have hc := (outline_valid (configured values) type).holds_run h0 hreach
  constructor
  · intro a ha hsending
    have hloc : Local (configured values) type c.shared a := hc.loc a ha
    have hshared := wTimeout_of_shared hc ha
    cases a with
    | write call pc =>
        cases pc with
        | send left =>
            cases hmode : (Thread.write call (.send left)).mode type with
            | exclusive => exact hloc rfl hmode
            | shared => exact hshared rfl hmode
        | _ => cases hsending
    | pkg th =>
        cases th with
        | writePkg timeout pc =>
            cases pc with
            | send orig =>
                cases orig with
                | none =>
                    rw [Thread.timeout, if_neg hloc]
                    exact hshared rfl (if_neg hloc)
                | some orig =>
                    rw [Thread.timeout, if_pos hloc.1]
                    exact hloc.2.2
            | _ => cases hsending
        | _ => cases hsending
  · intro hnone
    cases hlocked : c.shared.locked with
    | false => exact hc.shared.free hlocked
    | true =>
        obtain ⟨a, ha, hholds, hmode⟩ := exists_exclusive hc hlocked
        exact wTimeout_of_exclusive (hc.loc a ha) hholds hmode (hnone a ha)

/-- A `WritePkg` with a timeout sends while a `Send` waits for the lock; then the `Send` sends. -/
theorem write_timeout_local_two : ∃ c c' : Conf Shared Thread,
    (prog .tcp).Reaches (initial [7] 0) c ∧ (prog .tcp).Reaches c c' ∧
      c.shared.wTimeout = 5 ∧ c'.shared.wTimeout = 7 ∧
      c'.pool = [.write .send (.send 1)] := by
  have hrun : ∃ c ∈ (prog .tcp).run (initial [7] 0)
      [.start (.pkg (.writePkg 5 .enter)), .fire 0 1, .fire 0 0, .fire 0 1, .fire 0 0, .fire 0 0,
        .fire 0 0, .start (.write .send .enter), .fire 1 0],
      c.pool = [.pkg (.writePkg 5 (.send (some 7))), .write .send .lock] ∧
      ∃ c' ∈ (prog .tcp).run c
        [.fire 0 0, .fire 0 0, .fire 0 0, .fire 0 0, .fire 0 0, .fire 0 1],
        c'.pool = [.write .send (.send 1)] := by decide +kernel
  obtain ⟨c, hc, hpool, c', hc', hpool'⟩ := hrun
  have hreach : (prog .tcp).Reaches (initial [7] 0) c := ⟨_, hc⟩
  have hreach' : (prog .tcp).Reaches c c' := ⟨_, hc'⟩
  refine ⟨c, c', hreach, hreach', ?_, ?_, hpool'⟩
  · exact (write_timeout_local .tcp [7] 0 c hreach).1 (.pkg (.writePkg 5 (.send (some 7))))
      (by rw [hpool]; simp) rfl
  · exact (write_timeout_local .tcp [7] 0 c' (hreach.trans hreach')).1 (.write .send (.send 1))
      (by rw [hpool']; simp) rfl

end Getty.Transport.WriteLocality
