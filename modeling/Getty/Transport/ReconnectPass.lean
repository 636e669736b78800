import Getty.Transport.Reconnect
import Mathlib.Algebra.Group.Nat.Defs
import Mathlib.Data.List.Induction

/-!
# When a reconnect pass stops, and when it waits

A pass asks its client four things: whether it is closed, how many sessions it has, to connect
once more, and to wait.  `passTrace` lists the questions with their answers, for any client and
also for a pass that has not returned yet, and `passLoop_logged` ties the list to the loop.

`calls` cuts such a list at the connect calls, so that each of them comes with the waits between
it and the next one.

## Main results

* `passLoop_logged` — the trace is what a client with a log has been asked.
* `Pass.returned_iff` — what the last answers are when a pass returns.
* `Pass.pacing` — which waits follow a connect call.
* `reconnect_pass_exact` — all together.
-/

namespace Getty.Transport.Reconnect

variable {σ : Type}

/-! ## What a pass asks -/

/-- A question of the pass with its answer. -/
inductive Asked where
  | isClosed (closed : Bool)
  | sessionNum (num : Nat)
  | connect (ok : Bool)
  | backoff (wait : Nat) (stopped : Bool)
  deriving Repr, DecidableEq

/-- The questions of `passLoop`, in order. -/
def passTrace (ops : Ops σ) (o : Options) : Nat → Nat → σ → List Asked
  | fuel, reconnectAttempts, s =>
      if reconnectAttempts < o.attempts then
        match fuel with
        | 0 => []
        | fuel + 1 =>
            let (closed, s) := ops.isClosed s
            .isClosed closed ::
              if closed then []
              else
                let (num, s) := ops.sessionNum s
                .sessionNum num ::
                  if o.number ≤ num then []
                  else
                    let (ok, s) := ops.connect s
                    .connect ok ::
                      if ok then passTrace ops o fuel 0 s
                      else
                        let (closed, s) := ops.isClosed s
                        .isClosed closed ::
                          if closed then []
                          else
                            let (num, s) := ops.sessionNum s
                            .sessionNum num ::
                              if o.number ≤ num then []
                              else if o.attempts ≤ reconnectAttempts + 1 then []
                              else
                                let wait :=
                                  min (reconnectAttempts + 1) maxBackOffTimes * o.interval
                                let (stopped, s) := ops.backoff wait s
                                .backoff wait stopped ::
                                  if stopped then []
                                  else passTrace ops o fuel (reconnectAttempts + 1) s
      else []

/-- A client that keeps a list of what it is asked. -/
def Ops.logged (ops : Ops σ) : Ops (σ × List Asked) where
  isClosed s :=
    ((ops.isClosed s.1).1, (ops.isClosed s.1).2, s.2 ++ [.isClosed (ops.isClosed s.1).1])
  sessionNum s :=
    ((ops.sessionNum s.1).1, (ops.sessionNum s.1).2,
      s.2 ++ [.sessionNum (ops.sessionNum s.1).1])
  connect s := ((ops.connect s.1).1, (ops.connect s.1).2, s.2 ++ [.connect (ops.connect s.1).1])
  backoff wait s :=
    ((ops.backoff wait s.1).1, (ops.backoff wait s.1).2,
      s.2 ++ [.backoff wait (ops.backoff wait s.1).1])

/-- **The trace is what the loop asks.** -/
theorem passLoop_logged (ops : Ops σ) (o : Options) (fuel a : Nat) (s : σ) (log : List Asked) :
    passLoop ops.logged o fuel a (s, log) =
      (passLoop ops o fuel a s).map fun s' => (s', log ++ passTrace ops o fuel a s) := by
  obtain ⟨isClosed, sessionNum, connect, backoff⟩ := ops
  simp only [Ops.logged]
  induction fuel generalizing a s log with
  | zero =>
      rw [passLoop, passLoop, passTrace]
      by_cases ha : a < o.attempts
      · simp only [if_pos ha, Option.map_none]
      · simp only [if_neg ha, Option.map_some, List.append_nil]
  | succ fuel ih =>
      rw [passLoop, passLoop, passTrace]
      by_cases ha : a < o.attempts
      case neg => simp only [ha, if_false, Option.map_some, List.append_nil]
      simp only [if_pos ha]
      -- one question after the other, each of them with any answer
      rcases isClosed s with ⟨closed, s₁⟩
      cases closed with
      | true => simp only [if_true, Option.map_some]
      | false =>
          simp only [Bool.false_eq_true, if_false]
          rcases sessionNum s₁ with ⟨num, s₂⟩
          by_cases hnumber : o.number ≤ num
          · simp only [if_pos hnumber, Option.map_some, List.append_assoc, List.cons_append,
              List.nil_append]
          · simp only [if_neg hnumber]
            rcases connect s₂ with ⟨ok, s₃⟩
            cases ok with
            | true =>
                simp only [if_true, ih, List.append_assoc, List.cons_append, List.nil_append]
            | false =>
                simp only [Bool.false_eq_true, if_false]
                rcases isClosed s₃ with ⟨closed', s₄⟩
                cases closed' with
                | true =>
                    simp only [if_true, Option.map_some, List.append_assoc, List.cons_append,
                      List.nil_append]
                | false =>
                    simp only [Bool.false_eq_true, if_false]
                    rcases sessionNum s₄ with ⟨num', s₅⟩
                    by_cases hnumber' : o.number ≤ num'
                    · simp only [if_pos hnumber', Option.map_some, List.append_assoc,
                        List.cons_append, List.nil_append]
                    · simp only [if_neg hnumber']
                      by_cases hlast : o.attempts ≤ a + 1
                      · simp only [if_pos hlast, Option.map_some, List.append_assoc,
                          List.cons_append, List.nil_append]
                      · simp only [if_neg hlast]
                        rcases backoff (min (a + 1) maxBackOffTimes * o.interval) s₅ with
                          ⟨stopped, s₆⟩
                        cases stopped with
                        | true =>
                            simp only [if_true, Option.map_some, List.append_assoc,
                              List.cons_append, List.nil_append]
                        | false =>
                            simp only [Bool.false_eq_true, if_false, ih, List.append_assoc,
                              List.cons_append, List.nil_append]

/-! ## The turns of a pass -/

/-- What a pass has asked after `a` consecutive failures, and whether it has returned. -/
inductive Pass (o : Options) : Nat → List Asked → Bool → Prop where
  | unfinished {a : Nat} (ha : a < o.attempts) : Pass o a [] false
  | closed {a : Nat} (ha : a < o.attempts) : Pass o a [.isClosed true] true
  | full {a n : Nat} (ha : a < o.attempts) (hn : o.number ≤ n) :
      Pass o a [.isClosed false, .sessionNum n] true
  | ok {a n : Nat} {t : List Asked} {returned : Bool} (ha : a < o.attempts) (hn : n < o.number)
      (h : Pass o 0 t returned) :
      Pass o a (.isClosed false :: .sessionNum n :: .connect true :: t) returned
  | failedClosed {a n : Nat} (ha : a < o.attempts) (hn : n < o.number) :
      Pass o a [.isClosed false, .sessionNum n, .connect false, .isClosed true] true
  | failedFull {a n n' : Nat} (ha : a < o.attempts) (hn : n < o.number) (hn' : o.number ≤ n') :
      Pass o a
        [.isClosed false, .sessionNum n, .connect false, .isClosed false, .sessionNum n'] true
  | exhausted {a n n' : Nat} (ha : a < o.attempts) (hn : n < o.number) (hn' : n' < o.number)
      (hlast : o.attempts ≤ a + 1) :
      Pass o a
        [.isClosed false, .sessionNum n, .connect false, .isClosed false, .sessionNum n'] true
  | stopped {a n n' : Nat} (hn : n < o.number) (hn' : n' < o.number) (ha : a + 1 < o.attempts) :
      Pass o a
        [.isClosed false, .sessionNum n, .connect false, .isClosed false, .sessionNum n',
          .backoff (min (a + 1) maxBackOffTimes * o.interval) true] true
  | waited {a n n' : Nat} {t : List Asked} {returned : Bool} (hn : n < o.number)
      (hn' : n' < o.number) (ha : a + 1 < o.attempts) (h : Pass o (a + 1) t returned) :
      Pass o a
        (.isClosed false :: .sessionNum n :: .connect false :: .isClosed false ::
          .sessionNum n' :: .backoff (min (a + 1) maxBackOffTimes * o.interval) false :: t)
        returned

/-- **Inversion.**  The trace of a pass is made of such turns. -/
theorem pass_passTrace (ops : Ops σ) (o : Options) (fuel a : Nat) (s : σ)
    (ha : a < o.attempts) :
    Pass o a (passTrace ops o fuel a s) (passLoop ops o fuel a s).isSome := by
  induction fuel generalizing a s with
  | zero =>
      unfold passLoop passTrace
      simp only [ha, if_true]
      exact .unfinished ha
  | succ fuel ih =>
      unfold passLoop passTrace
      simp only [ha, if_true]
      cases hc : (ops.isClosed s).1 with
      | true => exact .closed ha
      | false =>
          simp only [Bool.false_eq_true, if_false]
          split
          · next hn => exact .full ha hn
          · next hn =>
              have hn := Nat.lt_of_not_le hn
              cases hok : (ops.connect (ops.sessionNum (ops.isClosed s).2).2).1 with
              | true => exact .ok ha hn (ih 0 _ o.attempts_pos)
              | false =>
                  simp only [Bool.false_eq_true, if_false]
                  split
                  · next hc' =>
                      rw [hc']
                      exact .failedClosed ha hn
                  · next hc' =>
                      rw [Bool.eq_false_iff.mpr hc']
                      split
                      · next hn' => exact .failedFull ha hn hn'
                      · next hn' =>
                          have hn' := Nat.lt_of_not_le hn'
                          split
                          · next hlast => exact .exhausted ha hn hn' hlast
                          · next hlast =>
                              have hlast := Nat.lt_of_not_le hlast
                              split
                              · next hstop =>
                                  rw [hstop]
                                  exact .stopped hn hn' hlast
                              · next hstop =>
                                  rw [Bool.eq_false_iff.mpr hstop]
                                  exact .waited hn hn' hlast (ih (a + 1) _ hlast)

/-! ## When it stops -/

/-- The answer ends the pass: the client is closed, or the pool is full. -/
def Asked.Stops (o : Options) : Asked → Prop
  | .isClosed closed => closed = true
  | .sessionNum num => o.number ≤ num
  | .connect _ => False
  | .backoff _ stopped => stopped = true

@[simp] theorem stops_isClosed (o : Options) (closed : Bool) :
    (Asked.isClosed closed).Stops o ↔ closed = true := Iff.rfl

@[simp] theorem stops_sessionNum (o : Options) (num : Nat) :
    (Asked.sessionNum num).Stops o ↔ o.number ≤ num := Iff.rfl

@[simp] theorem stops_connect (o : Options) (ok : Bool) : ¬ (Asked.connect ok).Stops o := id

@[simp] theorem stops_backoff (o : Options) (wait : Nat) (stopped : Bool) :
    (Asked.backoff wait stopped).Stops o ↔ stopped = true := Iff.rfl

/-- The result of a connect call. -/
def Asked.outcome : Asked → Option Bool
  | .connect ok => some ok
  | _ => none

/-- The results of the connect calls. -/
def outcomes (t : List Asked) : List Bool := t.filterMap Asked.outcome

@[simp] theorem outcomes_nil : outcomes [] = [] := rfl

@[simp] theorem outcomes_connect (ok : Bool) (t : List Asked) :
    outcomes (.connect ok :: t) = ok :: outcomes t := rfl

@[simp] theorem outcomes_isClosed (closed : Bool) (t : List Asked) :
    outcomes (.isClosed closed :: t) = outcomes t := rfl

@[simp] theorem outcomes_sessionNum (num : Nat) (t : List Asked) :
    outcomes (.sessionNum num :: t) = outcomes t := rfl

@[simp] theorem outcomes_backoff (wait : Nat) (stopped : Bool) (t : List Asked) :
    outcomes (.backoff wait stopped :: t) = outcomes t := rfl

/-- The number of failures since the last success. -/
def failures (oks : List Bool) : Nat := (oks.reverse.takeWhile (!·)).length

@[simp] theorem failures_ok (oks : List Bool) : failures (oks ++ [true]) = 0 := by
  simp [failures]

@[simp] theorem failures_failed (oks : List Bool) :
    failures (oks ++ [false]) = failures oks + 1 := by
  simp [failures]

/-- Failures at the end are the last calls. -/
private theorem le_failures_iff (m : Nat) (oks : List Bool) :
    m ≤ failures oks ↔ List.replicate m false <:+ oks := by
  induction oks using List.reverseRecOn generalizing m with
  | nil => simp [failures]
  | append_singleton oks ok ih =>
      cases m with
      | zero => simp
      | succ m =>
          rw [List.replicate_succ']
          cases ok with
          | true => simp [List.suffix_concat_iff]
          | false =>
              rw [failures_failed, Nat.succ_le_succ_iff, ih]
              constructor
              · rintro ⟨l, hl⟩
                exact ⟨l, by rw [← hl, List.append_assoc]⟩
              · rintro ⟨l, hl⟩
                rw [← List.append_assoc] at hl
                exact ⟨l, (List.append_inj' hl rfl).1⟩

/-- An answer that ends the pass is its last one. -/
theorem Pass.stops_last {o : Options} {a : Nat} {t : List Asked} {returned : Bool}
    (h : Pass o a t returned) : t.Pairwise fun e _ => ¬ e.Stops o := by
  induction h with
  | unfinished ha => exact List.Pairwise.nil
  | closed ha => simp
  | full ha hn => simp
  | ok ha hn h ih => simp [hn, ih]
  | failedClosed ha hn => simp [hn]
  | failedFull ha hn hn' => simp [hn]
  | exhausted ha hn hn' hlast => simp [hn]
  | stopped hn hn' ha => simp [hn, hn']
  | waited hn hn' ha h ih => simp [hn, hn', ih]

/-- Why a pass returns. -/
def Ends (o : Options) (before : List Bool) (t : List Asked) : Prop :=
  (∃ e, t.getLast? = some e ∧ e.Stops o) ∨ o.attempts ≤ failures (before ++ outcomes t)

/-- **A pass returns** if and only if its last answer ends it or the attempts are used up. -/
theorem Pass.returned_iff {o : Options} {a : Nat} {t : List Asked} {returned : Bool}
    (h : Pass o a t returned) {before : List Bool} (hbefore : failures before = a) :
    returned = true ↔ Ends o before t := by
  induction h generalizing before with
  | unfinished ha => simp [Ends, hbefore, ha]
  | closed ha => simp [Ends]
  | full ha hn => simp [Ends, hn]
  | @ok a n t returned ha hn h ih =>
      have hpos := o.attempts_pos
      rw [ih (failures_ok before)]
      cases t with
      | nil => simp [Ends]
      | cons e t => simp [Ends]
  | failedClosed ha hn => simp [Ends]
  | failedFull ha hn hn' => simp [Ends, hn']
  | exhausted ha hn hn' hlast => simp [Ends, hbefore, hlast]
  | stopped hn hn' ha => simp [Ends]
  | @waited a n n' t returned hn hn' ha h ih =>
      have hfailed : failures (before ++ [false]) = a + 1 := by rw [failures_failed, hbefore]
      rw [ih hfailed]
      cases t with
      | nil => simp [Ends]
      | cons e t => simp [Ends]

/-! ## When it waits -/

/-- A connect call: its result, and the waits between it and the next one. -/
structure Call where
  ok : Bool
  waits : List Nat
  deriving Repr, DecidableEq

/-- The waits before the first connect call, and the connect calls. -/
def split : List Asked → List Nat × List Call
  | [] => ([], [])
  | .connect ok :: t => ([], ⟨ok, (split t).1⟩ :: (split t).2)
  | .backoff wait _ :: t => (wait :: (split t).1, (split t).2)
  | .isClosed _ :: t => split t
  | .sessionNum _ :: t => split t

def calls (t : List Asked) : List Call := (split t).2

theorem outcomes_eq (t : List Asked) : outcomes t = (calls t).map Call.ok := by
  induction t with
  | nil => rfl
  | cons e t ih =>
      rw [calls] at ih
      cases e with
      | connect ok => simp [calls, split, ih]
      | _ => simpa [calls, split] using ih

/-- The wait after a number of consecutive failures. -/
def Options.pause (o : Options) (failures : Nat) : Nat := min failures maxBackOffTimes * o.interval

/-- A connect call and what follows it.  `oks` are the results up to this call, and `isLast` says
that it is the last one. -/
structure Paced (o : Options) (oks : List Bool) (c : Call) (isLast : Prop) : Prop where
  limit : failures oks ≤ o.attempts
  ok : c.ok = true → c.waits = []
  failed : ¬ isLast → c.ok = false → c.waits = [o.pause (failures oks)]
  last : c.waits = [] ∨ c.waits = [o.pause (failures oks)]
  exhausted : failures oks = o.attempts → isLast ∧ c.waits = []

/-- The connect calls of a pass, after some others. -/
def Pacing (o : Options) (before : List Bool) (cs : List Call) : Prop :=
  ∀ pre c post, cs = pre ++ c :: post →
    Paced o (before ++ pre.map Call.ok ++ [c.ok]) c (post = [])

private theorem pacing_nil (o : Options) (before : List Bool) : Pacing o before [] := by
  intro pre c post h
  simp at h

private theorem pacing_cons {o : Options} {before : List Bool} {c : Call} {cs : List Call}
    (hc : Paced o (before ++ [c.ok]) c (cs = [])) (hcs : Pacing o (before ++ [c.ok]) cs) :
    Pacing o before (c :: cs) := by
  intro pre d post h
  cases pre with
  | nil =>
      obtain ⟨rfl, rfl⟩ := List.cons.inj h
      simpa using hc
  | cons e pre =>
      obtain ⟨rfl, rfl⟩ := List.cons.inj h
      simpa using hcs pre d post rfl

/-- The pass ends after a failure without a wait. -/
private theorem paced_quiet {o : Options} {before : List Bool} (h : failures before < o.attempts) :
    Paced o (before ++ [false]) ⟨false, []⟩ (([] : List Call) = []) :=
  ⟨by simp; omega, fun _ => rfl, fun hlast => absurd rfl hlast, Or.inl rfl, fun _ => ⟨rfl, rfl⟩⟩

/-- **The waits of a pass.** -/
theorem Pass.pacing {o : Options} {a : Nat} {t : List Asked} {returned : Bool}
    (h : Pass o a t returned) {before : List Bool} (hbefore : failures before = a) :
    (split t).1 = [] ∧ Pacing o before (calls t) := by
  have hpos := o.attempts_pos
  induction h generalizing before with
  | unfinished ha => exact ⟨rfl, pacing_nil o before⟩
  | closed ha => exact ⟨rfl, pacing_nil o before⟩
  | full ha hn => exact ⟨rfl, pacing_nil o before⟩
  | @ok a n t returned ha hn h ih =>
      obtain ⟨hearly, hrest⟩ := ih (failures_ok before)
      refine ⟨rfl, pacing_cons ?_ hrest⟩
      exact ⟨by simp, fun _ => hearly, by simp, Or.inl hearly, by simp; omega⟩
  | failedClosed ha hn =>
      exact ⟨rfl, pacing_cons (paced_quiet (by omega)) (pacing_nil o _)⟩
  | failedFull ha hn hn' =>
      exact ⟨rfl, pacing_cons (paced_quiet (by omega)) (pacing_nil o _)⟩
  | exhausted ha hn hn' hlast =>
      exact ⟨rfl, pacing_cons (paced_quiet (by omega)) (pacing_nil o _)⟩
  | stopped hn hn' ha =>
      refine ⟨rfl, pacing_cons ?_ (pacing_nil o _)⟩
      exact ⟨by simp; omega, by simp, fun hlast => absurd rfl hlast,
        Or.inr (by simp [Options.pause, hbefore, split]), by simp; omega⟩
  | @waited a n n' t returned hn hn' ha h ih =>
      have hfailed : failures (before ++ [false]) = a + 1 := by rw [failures_failed, hbefore]
      obtain ⟨hearly, hrest⟩ := ih hfailed
      have hwaits : min (a + 1) maxBackOffTimes * o.interval :: (split t).1 =
          [o.pause (failures (before ++ [false]))] := by
        rw [hearly, hfailed]
        rfl
      refine ⟨rfl, pacing_cons ?_ hrest⟩
      exact ⟨by simp; omega, by simp, fun _ _ => hwaits, Or.inr hwaits, by simp; omega⟩

/-! ## The whole pass -/

/-- The length of a wait as the source computes it. -/
def backoffInt64 (backOffTimes reconnectInterval : Nat) : Int64 :=
  Int64.ofNat backOffTimes * Int64.ofNat reconnectInterval

private theorem backoffInt64_toInt {times interval : Nat} (htimes : times ≤ maxBackOffTimes)
    (h : maxBackOffTimes * interval < 2 ^ 63) :
    (backoffInt64 times interval).toInt = (times * interval : Nat) := by
  have hle : times * interval ≤ maxBackOffTimes * interval := Nat.mul_le_mul_right interval htimes
  rw [show maxBackOffTimes = 10 from rfl] at htimes hle h
  have htimes' : times < 2 ^ 63 := by omega
  have hinterval : interval < 2 ^ 63 := by omega
  rw [backoffInt64, Int64.toInt_mul, Int64.toInt_ofNat_of_lt htimes',
    Int64.toInt_ofNat_of_lt hinterval, ← Int.natCast_mul]
  exact Int.bmod_eq_of_le (by omega) (by omega)

/-- **A reconnect pass**, over any client; the trace is what the client has been asked when the
pass returns.  It returns exactly when the client is closed, the pool count just read is full, or
the last calls, as many as the limit, have all failed.  A connect call that another one follows is
followed by one wait if it failed and by none if it succeeded.  The call that uses up the limit is
followed by none, and another last call by at most one, in which case the pass returns because the
client was closed or the pool full after that wait. -/
theorem reconnect_pass_exact (ops : Ops σ) (o : Options) (fuel : Nat) (s : σ)
    (hinterval : maxBackOffTimes * o.interval < 2 ^ 63) :
    (reConnect ops.logged o fuel (s, []) =
      (reConnect ops o fuel s).map fun s' => (s', passTrace ops o fuel 0 s)) ∧
    ((reConnect ops o fuel s).isSome = true ↔
      (∃ e, (passTrace ops o fuel 0 s).getLast? = some e ∧ e.Stops o) ∨
        List.replicate o.attempts false <:+ outcomes (passTrace ops o fuel 0 s)) ∧
    (∀ pre e post, passTrace ops o fuel 0 s = pre ++ e :: post → e.Stops o → post = []) ∧
    (split (passTrace ops o fuel 0 s)).1 = [] ∧
    (∀ pre c post, calls (passTrace ops o fuel 0 s) = pre ++ c :: post →
      ∀ i, i = failures (pre.map Call.ok ++ [c.ok]) → i ≤ o.attempts ∧
        (c.ok = true → c.waits = []) ∧
        (post ≠ [] → c.ok = false → c.waits = [min i maxBackOffTimes * o.interval]) ∧
        (i = o.attempts → post = [] ∧ c.waits = []) ∧
        (post = [] → c.waits ≠ [] → c.waits = [min i maxBackOffTimes * o.interval] ∧
          ((reConnect ops o fuel s).isSome = true →
            ∃ e, (passTrace ops o fuel 0 s).getLast? = some e ∧ e.Stops o))) ∧
    (∀ i, (backoffInt64 (min i maxBackOffTimes) o.interval).toInt =
      (min i maxBackOffTimes * o.interval : Nat)) := by
  have hpass := pass_passTrace ops o fuel 0 s o.attempts_pos
  have hreturned : (reConnect ops o fuel s).isSome = true ↔
      (∃ e, (passTrace ops o fuel 0 s).getLast? = some e ∧ e.Stops o) ∨
        List.replicate o.attempts false <:+ outcomes (passTrace ops o fuel 0 s) := by
    rw [← le_failures_iff]
    exact hpass.returned_iff (show failures [] = 0 from rfl)
  obtain ⟨hearly, hpacing⟩ := hpass.pacing (show failures [] = 0 from rfl)
  refine ⟨passLoop_logged ops o fuel 0 s [], hreturned, ?_, hearly, ?_,
    fun i => backoffInt64_toInt (Nat.min_le_right ..) hinterval⟩
  · intro pre e post htrace hstops
    have hlast := hpass.stops_last
    rw [htrace] at hlast
    have htail := (List.pairwise_append.mp hlast).2.1
    cases post with
    | nil => rfl
    | cons e' post => exact absurd hstops ((List.pairwise_cons.mp htail).1 e' (by simp))
  · intro pre c post hcalls i hi
    subst hi
    have hpaced := hpacing pre c post hcalls
    rw [List.nil_append] at hpaced
    refine ⟨hpaced.limit, hpaced.ok, hpaced.failed, hpaced.exhausted, ?_⟩
    intro hpost hwaits
    refine ⟨hpaced.last.resolve_left hwaits, fun hret => ?_⟩
    refine (hreturned.mp hret).resolve_right fun hall => hwaits ?_
    -- all attempts are used up, and this is the last call
    rw [← le_failures_iff, outcomes_eq, hcalls, hpost, List.map_append,
      List.map_singleton] at hall
    exact (hpaced.exhausted (Nat.le_antisymm hpaced.limit hall)).2

/-- A client with no session whose connect calls fail, and which is closed during the wait that
`closedIn` counts down to. -/
def closedIn : Ops Nat where
  isClosed n := (false, n)
  sessionNum n := (0, n)
  connect n := (false, n)
  backoff _ n := (n == 0, n - 1)

/-- Two attempts, both of which fail: one wait between them, and none at the end. -/
theorem reconnect_pass_exact_two :
    calls (passTrace closedIn ⟨1, 7, 2⟩ 2 0 5) = [⟨false, [7]⟩, ⟨false, []⟩] ∧
      (reConnect closedIn ⟨1, 7, 2⟩ 2 5).isSome = true := by
  have hcalls : calls (passTrace closedIn ⟨1, 7, 2⟩ 2 0 5) = [⟨false, [7]⟩, ⟨false, []⟩] := by
    decide
  have hexact := reconnect_pass_exact closedIn ⟨1, 7, 2⟩ 2 5 (by decide)
  refine ⟨hcalls, hexact.2.1.mpr (Or.inr ?_)⟩
  rw [outcomes_eq, hcalls]
  exact List.suffix_rfl

/-- **A wait after the last call.**  The client is closed during the wait after the first of three
attempts: the pass has waited, and makes no other attempt. -/
theorem reconnect_waits_after_last :
    calls (passTrace closedIn ⟨1, 7, 3⟩ 9 0 0) = [⟨false, [7]⟩] ∧
      (reConnect closedIn ⟨1, 7, 3⟩ 9 0).isSome = true := by
  decide

end Getty.Transport.Reconnect
