import Getty.Transport.CodecConn

/-!
# The polling writer of a codec

`codecPollingWriter.Write` offers its buffer to the socket until all of it is accepted.  An
attempt may accept any part of what it is offered and end in a timeout; the next one goes on
where it ended, unless the stream is being shut down or nothing was accepted for
`codecStallTimeout`.

A run is given by its attempts: the clock readings, the outcome of `conn.Write`, and what the
tests of a timeout find.  `CodecConn` has the same loop as steps of a thread, between which the
other threads of the connection run; an attempt is one or two of them.

## Main results

* `offer_isRound` — the attempts are the rounds of `CodecConn`.
* `polling_write_exact` — what is offered, what is accepted, and when `Write` gives up.
-/

namespace Getty.Transport.CodecWriter

open Getty.Transport.CodecConn (Cfg Err WritePoll Sect Shared isTimeoutError millisecond pollStep
  sectStep)
open Getty.Verified.StreamCodec (Encoder Op)

/-! ## The source -/

/-- The outcome of `conn.Write`: everything is accepted, or some of it with an error. -/
inductive Outcome where
  | all
  | part (k : Nat) (err : Err)
  deriving Repr, DecidableEq

/-- The bytes that are accepted; with an error at least one byte is left out. -/
def Outcome.accepted (b : Bytes) : Outcome → Bytes
  | .all => b
  | .part k _ => b.take (min k (b.length - 1))

def Outcome.err : Outcome → Option Err
  | .all => none
  | .part _ err => some err

/-- What one turn of the loop meets: the write timeout, the clock for the remaining stall time and
for the deadline, the error of `SetWriteDeadline`, the outcome of `conn.Write`, the clock when
progress is recorded, the three shutdown tests, and the clock for the stall test. -/
structure Attempt where
  wTimeout : Int
  sinceAt : Int
  armedAt : Int
  deadlineErr : Option Err
  outcome : Outcome
  progressAt : Int
  codecBroken : Bool
  closing : Bool
  sessionClosing : Bool
  testedAt : Int
  deriving Repr, DecidableEq

/-- The deadline that an attempt arms. -/
def Attempt.deadline (cfg : Cfg) (lastProgress : Int) (o : Attempt) : Option Int :=
  if 0 < o.wTimeout then
    let remaining := cfg.codecStallTimeout - (o.sinceAt - lastProgress)
    if 0 < cfg.codecStallTimeout ∧ remaining < o.wTimeout then
      some (o.armedAt + max remaining millisecond)
    else some (o.armedAt + o.wTimeout)
  else none

/-- The error of `SetWriteDeadline`, if it is called. -/
def Attempt.armError (cfg : Cfg) (lastProgress : Int) (o : Attempt) : Option Err :=
  (o.deadline cfg lastProgress).bind fun _ => o.deadlineErr

/-- What a turn of the loop comes to. -/
inductive Turn where
  | again (written : Nat) (lastProgress : Int)
  | failed (written : Nat) (err : Err)
  deriving Repr, DecidableEq

/-- What an error of `conn.Write` leads to, some bytes having been accepted or not. -/
def onError (cfg : Cfg) (written : Nat) (lastProgress : Int) (o : Attempt) (err : Err) : Turn :=
  if !isTimeoutError err then .failed written err
  else if o.codecBroken || o.closing || o.sessionClosing then .failed written err
  else if 0 < cfg.codecStallTimeout ∧ cfg.codecStallTimeout ≤ o.testedAt - lastProgress then
    .failed written err
  else .again written lastProgress

/-- A turn of the loop from `conn.Write` on. -/
def afterDeadline (cfg : Cfg) (p : Bytes) (written : Nat) (lastProgress : Int) (o : Attempt) :
    Turn :=
  let b := o.outcome.accepted (p.drop written)
  let written := written + b.length
  let lastProgress := if 0 < b.length then o.progressAt else lastProgress
  match o.outcome.err with
  | none => .again written lastProgress
  | some err => onError cfg written lastProgress o err

/-- An attempt with what it was offered and what was accepted. -/
structure Offer where
  attempt : Attempt
  offered : Bytes
  accepted : Bytes
  deriving Repr, DecidableEq

/-- The call `conn.Write(p[written:])` of an attempt. -/
def Attempt.offer (p : Bytes) (written : Nat) (o : Attempt) : Offer :=
  ⟨o, p.drop written, o.outcome.accepted (p.drop written)⟩

/-- A call of `Write`: its calls of `conn.Write`, and what it has returned if it has. -/
structure Run where
  offers : List Offer
  result : Option (Nat × Option Err)
  deriving Repr, DecidableEq

/-- The loop of `Write`.  Without another attempt it waits for the socket. -/
def loop (cfg : Cfg) (p : Bytes) : List Attempt → Nat → Int → Run
  | os, written, lastProgress =>
      if written < p.length then
        match os with
        | [] => ⟨[], none⟩
        | o :: os =>
            match o.armError cfg lastProgress with
            | some e => ⟨[], some (written, some e)⟩
            | none =>
                match afterDeadline cfg p written lastProgress o with
                | .again written' lastProgress' =>
                    let run := loop cfg p os written' lastProgress'
                    { run with offers := o.offer p written :: run.offers }
                | .failed written' e => ⟨[o.offer p written], some (written', some e)⟩
      else ⟨[], some (written, none)⟩

/-- `codecPollingWriter.Write`, called at a time. -/
def write (cfg : Cfg) (p : Bytes) (now : Int) (os : List Attempt) : Run := loop cfg p os 0 now

/-! ## What is accepted -/

theorem Outcome.accepted_isPrefix (b : Bytes) (out : Outcome) : out.accepted b <+: b := by
  cases out with
  | all => exact List.prefix_rfl
  | part k err => exact List.take_prefix ..

/-- With an error something is left. -/
theorem Outcome.accepted_length_lt {b : Bytes} {out : Outcome} (hb : 0 < b.length)
    (herr : out.err ≠ none) : (out.accepted b).length < b.length := by
  cases out with
  | all => exact absurd rfl herr
  | part k err =>
      rw [Outcome.accepted, List.length_take]
      omega

/-! ## The rounds of the connection -/

/-- The attempt as a round of `CodecConn`. -/
def Attempt.poll (b : Bytes) (o : Attempt) : WritePoll where
  startedAt := o.sinceAt
  wTimeout := o.wTimeout
  deadlineErr := o.deadlineErr
  n := (o.outcome.accepted b).length
  err := o.outcome.err
  progressAt := o.progressAt
  testedAt := o.testedAt

/-- Where a turn leaves a thread of `CodecConn`. -/
def Turn.sect (p : Bytes) (chunks : List Bytes) (todo : List (Op UInt8)) : Turn → Sect
  | .again written lastProgress => .poll p written lastProgress chunks todo
  | .failed _ err => .out (some err)

/-- The attempt is a round on the socket of a thread of `CodecConn`, for every codec and in every
state; its tests of a timeout are made in the state that the connection is in by then. -/
def Offer.IsRound (cfg : Cfg) (p : Bytes) (written : Nat) (last : Int) (x : Offer) : Prop :=
  ∀ (κ : Type) (E : Encoder UInt8 κ) (s s' : Shared κ) (chunks : List Bytes)
    (todo : List (Op UInt8)) (polls : List WritePoll), s'.codecBroken = x.attempt.codecBroken →
    s'.closing = x.attempt.closing → s'.sessionClosed = x.attempt.sessionClosing →
    ∃ t mid, sectStep cfg E s (x.attempt.poll x.offered :: polls)
        (.poll p written last chunks todo) = [(t, polls, mid)] ∧
      t.wire = s.wire ++ x.accepted ∧
      (mid = (afterDeadline cfg p written last x.attempt).sect p chunks todo ∨
        ∃ t', sectStep cfg E s' polls mid =
          [(t', polls, (afterDeadline cfg p written last x.attempt).sect p chunks todo)])

/-- An attempt whose deadline is set is a round. -/
theorem offer_isRound (cfg : Cfg) {p : Bytes} {written : Nat} (last : Int) {o : Attempt}
    (hwritten : written < p.length) (hdeadline : o.deadlineErr = none) :
    (o.offer p written).IsRound cfg p written last := by
  intro κ E s s' chunks todo polls hbroken hclosing hclosed
  have htake : (p.drop written).take (o.outcome.accepted (p.drop written)).length =
      o.outcome.accepted (p.drop written) :=
    (List.prefix_iff_eq_take.mp (Outcome.accepted_isPrefix ..)).symm
  have hlast : (if o.outcome.accepted (p.drop written) = [] then last else o.progressAt) =
      if 0 < (o.outcome.accepted (p.drop written)).length then o.progressAt else last := by
    cases o.outcome.accepted (p.drop written) <;> rfl
  dsimp only [Attempt.offer] at hbroken hclosing hclosed ⊢
  simp only [sectStep, if_pos hwritten, pollStep, Attempt.poll, hdeadline, htake, hlast,
    Option.isSome_none, Bool.false_eq_true, and_false, if_false, afterDeadline]
  generalize (if 0 < (o.outcome.accepted (p.drop written)).length then o.progressAt else last) =
    last'
  cases o.outcome.err with
  | none => exact ⟨_, _, rfl, rfl, Or.inl rfl⟩
  | some e =>
      simp only [onError]
      cases isTimeoutError e with
      | false => exact ⟨_, _, rfl, rfl, Or.inl rfl⟩
      | true =>
          refine ⟨_, _, rfl, rfl, Or.inr ?_⟩
          -- the round stops before the tests
          simp only [hbroken, hclosing, hclosed, Bool.not_true, Bool.false_eq_true, if_false]
          split
          · exact ⟨_, rfl⟩
          · split
            · exact ⟨_, rfl⟩
            · exact ⟨_, rfl⟩

/-! ## When it gives up -/

/-- The bytes that some attempts put on the wire. -/
def acceptedOf (offers : List Offer) : Bytes := offers.flatMap Offer.accepted

@[simp] theorem acceptedOf_nil : acceptedOf [] = [] := rfl

@[simp] theorem acceptedOf_cons (x : Offer) (offers : List Offer) :
    acceptedOf (x :: offers) = x.accepted ++ acceptedOf offers := rfl

theorem acceptedOf_append (xs ys : List Offer) :
    acceptedOf (xs ++ ys) = acceptedOf xs ++ acceptedOf ys :=
  List.flatMap_append

/-- The clock when a byte was accepted last, if it was `since` before these attempts. -/
def lastAccept (since : Int) : List Offer → Int
  | [] => since
  | x :: offers =>
      lastAccept (if x.accepted = [] then since else x.attempt.progressAt) offers

/-- The stream is broken or closing, or the session is. -/
def Attempt.ShutDown (o : Attempt) : Prop :=
  o.codecBroken = true ∨ o.closing = true ∨ o.sessionClosing = true

/-- No byte was accepted for at least `codecStallTimeout`, the last one having been accepted at
`since`. -/
def Attempt.Stalled (cfg : Cfg) (since : Int) (o : Attempt) : Prop :=
  0 < cfg.codecStallTimeout ∧ cfg.codecStallTimeout ≤ o.testedAt - since

/-- The attempt fails with an error that is no timeout, or with a timeout that counts. -/
def Attempt.Fatal (cfg : Cfg) (since : Int) (o : Attempt) (e : Err) : Prop :=
  o.outcome.err = some e ∧
    (isTimeoutError e = true → o.ShutDown ∨ o.Stalled cfg since)

/-- After a fatal error the loop ends, and after another one it goes on. -/
private theorem onError_cases (cfg : Cfg) (written : Nat) (since : Int) {o : Attempt} {err : Err}
    (herr : o.outcome.err = some err) :
    (∀ e, ¬ o.Fatal cfg since e) ∧ onError cfg written since o err = .again written since ∨
      o.Fatal cfg since err ∧ onError cfg written since o err = .failed written err := by
  by_cases hfatal : o.Fatal cfg since err
  · right
    refine ⟨hfatal, ?_⟩
    unfold onError
    split
    case isTrue => rfl
    case isFalse htimeout =>
      rcases hfatal.2 (by simpa using htimeout) with hshut | hstall
      · rw [if_pos (by simpa [Attempt.ShutDown, or_assoc] using hshut)]
      · rw [Attempt.Stalled] at hstall
        rw [if_pos hstall, ite_self]
  · left
    constructor
    · intro e hfatal'
      have heq : err = e := Option.some.inj (herr.symm.trans hfatal'.1)
      exact hfatal (heq ▸ hfatal')
    · have htimeout : isTimeoutError err = true := by
        by_contra hno
        exact hfatal ⟨herr, fun h => absurd h hno⟩
      have hshut : ¬ o.ShutDown := fun h => hfatal ⟨herr, fun _ => Or.inl h⟩
      have hstall : ¬ o.Stalled cfg since := fun h => hfatal ⟨herr, fun _ => Or.inr h⟩
      rw [Attempt.Stalled] at hstall
      unfold onError
      rw [if_neg (by simp [htimeout]),
        if_neg (by simpa [Attempt.ShutDown, or_assoc] using hshut), if_neg hstall]

/-- A turn goes on after an attempt that is not fatal, and ends with the error of one that is. -/
theorem afterDeadline_cases (cfg : Cfg) (p : Bytes) (written : Nat) (last : Int) (o : Attempt) :
    let x := o.offer p written
    (∀ e, ¬ o.Fatal cfg (lastAccept last [x]) e) ∧ afterDeadline cfg p written last o =
        .again (written + x.accepted.length) (lastAccept last [x]) ∨
      ∃ e, o.Fatal cfg (lastAccept last [x]) e ∧ afterDeadline cfg p written last o =
        .failed (written + x.accepted.length) e := by
  intro x
  have hsince : (if 0 < (o.outcome.accepted (p.drop written)).length then o.progressAt else last) =
      lastAccept last [x] := by
    rw [lastAccept, lastAccept]
    change _ = if o.outcome.accepted (p.drop written) = [] then last else o.progressAt
    cases o.outcome.accepted (p.drop written) <;> rfl
  simp only [afterDeadline, hsince]
  cases herr : o.outcome.err with
  | none =>
      left
      refine ⟨?_, rfl⟩
      intro e hfatal
      exact absurd (herr.symm.trans hfatal.1) (by simp)
  | some err =>
      rcases onError_cases cfg (written + x.accepted.length) (lastAccept last [x]) herr with
        hagain | hfailed
      · exact Or.inl hagain
      · exact Or.inr ⟨err, hfailed⟩

/-! ## Whole runs -/

/-- What holds of a run from a place in the buffer on, if the last byte before was accepted at
`since`. -/
structure Exact (cfg : Cfg) (p : Bytes) (os : List Attempt) (written : Nat) (since : Int)
    (run : Run) : Prop where
  attempts : run.offers.map Offer.attempt <+: os
  waiting : run.result = none → run.offers.map Offer.attempt = os
  accepted : acceptedOf run.offers <+: p.drop written
  place : ∀ pre x post, run.offers = pre ++ x :: post →
    x.offered = p.drop (written + (acceptedOf pre).length) ∧ x.offered ≠ [] ∧
      x.accepted = x.attempt.outcome.accepted x.offered
  ends : ∀ pre x post, run.offers = pre ++ x :: post →
    ∀ e, x.attempt.Fatal cfg (lastAccept since (pre ++ [x])) e →
      post = [] ∧ ∃ n, run.result = some (n, some e)
  count : ∀ n err, run.result = some (n, err) → n = written + (acceptedOf run.offers).length
  success : ∀ n, run.result = some (n, none) → p.length ≤ n
  failure : ∀ n e, run.result = some (n, some e) → n < p.length ∧
    ∃ pre x, run.offers = pre ++ [x] ∧ x.attempt.Fatal cfg (lastAccept since (pre ++ [x])) e

private theorem offer_accepted_isPrefix (p : Bytes) (written : Nat) (o : Attempt) :
    (o.offer p written).accepted <+: p.drop written :=
  Outcome.accepted_isPrefix ..

/-- The bytes of an attempt, and then those of the later ones. -/
theorem accepted_append_isPrefix {p b : Bytes} {written : Nat} (o : Attempt)
    (h : b <+: p.drop (written + (o.offer p written).accepted.length)) :
    (o.offer p written).accepted ++ b <+: p.drop written := by
  obtain ⟨rest, hrest⟩ := offer_accepted_isPrefix p written o
  rw [← List.drop_drop, ← hrest, List.drop_left] at h
  rw [← hrest]
  exact (List.prefix_append_right_inj _).mpr h

/-- An attempt is made where the bytes before it end. -/
theorem offer_place {p : Bytes} {written : Nat} (o : Attempt) (hwritten : written < p.length) :
    (o.offer p written).offered = p.drop written ∧ (o.offer p written).offered ≠ [] ∧
      (o.offer p written).accepted = o.outcome.accepted (o.offer p written).offered := by
  refine ⟨rfl, ?_, rfl⟩
  exact List.ne_nil_of_length_pos (by rw [Attempt.offer, List.length_drop]; omega)

/-- An attempt that is not fatal, and then the rest of the run. -/
theorem Exact.cons {cfg : Cfg} {p : Bytes} {os : List Attempt} {written : Nat} {since : Int}
    {o : Attempt} {run : Run} (hwritten : written < p.length)
    (hgoes : ∀ e, ¬ o.Fatal cfg (lastAccept since [o.offer p written]) e)
    (h : Exact cfg p os (written + (o.offer p written).accepted.length)
      (lastAccept since [o.offer p written]) run) :
    Exact cfg p (o :: os) written since
      { run with offers := o.offer p written :: run.offers } where
  attempts := (List.prefix_cons_inj o).mpr h.attempts
  waiting hnone := congrArg (o :: ·) (h.waiting hnone)
  accepted := accepted_append_isPrefix o h.accepted
  place pre x post hoffers := by
    cases pre with
    | nil =>
        obtain ⟨rfl, -⟩ := List.cons.inj hoffers
        exact offer_place o hwritten
    | cons y pre =>
        obtain ⟨rfl, hrest⟩ := List.cons.inj hoffers
        have hplace := h.place pre x post hrest
        rwa [Nat.add_assoc, ← List.length_append] at hplace
  ends pre x post hoffers e hfatal := by
    cases pre with
    | nil =>
        obtain ⟨rfl, -⟩ := List.cons.inj hoffers
        exact absurd hfatal (hgoes e)
    | cons y pre =>
        obtain ⟨rfl, hrest⟩ := List.cons.inj hoffers
        exact h.ends pre x post hrest e hfatal
  count n err hresult := by
    have hcount := h.count n err hresult
    rwa [Nat.add_assoc, ← List.length_append] at hcount
  success := h.success
  failure n e hresult := by
    obtain ⟨hn, pre, x, hoffers, hfatal⟩ := h.failure n e hresult
    exact ⟨hn, o.offer p written :: pre, x, congrArg _ hoffers, hfatal⟩

/-- A fatal attempt ends the run. -/
theorem Exact.last {cfg : Cfg} {p : Bytes} {os : List Attempt} {written : Nat} {since : Int}
    {o : Attempt} {e : Err} (hwritten : written < p.length)
    (hfatal : o.Fatal cfg (lastAccept since [o.offer p written]) e) :
    Exact cfg p (o :: os) written since
      ⟨[o.offer p written], some (written + (o.offer p written).accepted.length, some e)⟩ where
  attempts := (List.prefix_cons_inj o).mpr List.nil_prefix
  waiting hnone := nomatch hnone
  accepted := accepted_append_isPrefix o List.nil_prefix
  place pre x post hoffers := by
    cases pre with
    | nil =>
        obtain ⟨rfl, -⟩ := List.cons.inj hoffers
        exact offer_place o hwritten
    | cons y pre => simp at hoffers
  ends pre x post hoffers e' hfatal' := by
    cases pre with
    | nil =>
        obtain ⟨rfl, rfl⟩ := List.cons.inj hoffers
        have heq : e = e' := Option.some.inj (hfatal.1.symm.trans hfatal'.1)
        exact ⟨rfl, _, by rw [heq]⟩
    | cons y pre => simp at hoffers
  count n err hresult := by
    simp only [Option.some.injEq, Prod.mk.injEq] at hresult
    simp [← hresult.1]
  success n hresult := by simp at hresult
  failure n e' hresult := by
    simp only [Option.some.injEq, Prod.mk.injEq] at hresult
    obtain ⟨rfl, rfl⟩ := hresult
    refine ⟨?_, [], _, rfl, hfatal⟩
    -- an error leaves a byte out
    have hdrop : (p.drop written).length = p.length - written := List.length_drop
    have hlt := Outcome.accepted_length_lt (b := p.drop written) (by omega)
      (show o.outcome.err ≠ none by simp [hfatal.1])
    change written + (o.outcome.accepted (p.drop written)).length < p.length
    omega

/-- A run without an attempt, which has returned or waits for the socket. -/
theorem Exact.nil {cfg : Cfg} {p : Bytes} {os : List Attempt} {written : Nat} {since : Int}
    {result : Option (Nat × Option Err)} (hresult : result = none ∧ os = [] ∨
      result = some (written, none) ∧ p.length ≤ written) :
    Exact cfg p os written since ⟨[], result⟩ where
  attempts := List.nil_prefix
  waiting hnone := by
    rcases hresult with ⟨-, rfl⟩ | ⟨hsome, -⟩
    · rfl
    · exact absurd (hsome.symm.trans hnone) (by simp)
  accepted := List.nil_prefix
  place pre x post hoffers := by simp at hoffers
  ends pre x post hoffers := by simp at hoffers
  count n err hreturned := by
    rcases hresult with ⟨hnone, -⟩ | ⟨hsome, -⟩ <;> simp_all
  success n hreturned := by
    rcases hresult with ⟨hnone, -⟩ | ⟨hsome, hall⟩ <;> simp_all
  failure n e hreturned := by
    rcases hresult with ⟨hnone, -⟩ | ⟨hsome, -⟩ <;> simp_all

/-- Every run of the loop is exact; the induction is on the attempts. -/
private theorem exact_loop (cfg : Cfg) (p : Bytes) {os : List Attempt}
    (hdeadline : ∀ o ∈ os, o.deadlineErr = none) (written : Nat) (since : Int) :
    Exact cfg p os written since (loop cfg p os written since) := by
  induction os generalizing written since with
  | nil =>
      unfold loop
      split
      · exact Exact.nil (Or.inl ⟨rfl, rfl⟩)
      · exact Exact.nil (Or.inr ⟨rfl, by omega⟩)
  | cons o os ih =>
      unfold loop
      split
      case isFalse hdone => exact Exact.nil (Or.inr ⟨rfl, by omega⟩)
      case isTrue hwritten =>
        have harm : o.armError cfg since = none := by
          rw [Attempt.armError, hdeadline o List.mem_cons_self]
          cases o.deadline cfg since <;> rfl
        simp only [harm]
        rcases afterDeadline_cases cfg p written since o with ⟨hgoes, hturn⟩ | ⟨e, hfatal, hturn⟩
        · rw [hturn]
          exact Exact.cons hwritten hgoes (ih (fun o' ho' => hdeadline o' (by simp [ho'])) _ _)
        · rw [hturn]
          exact Exact.last hwritten hfatal

theorem Attempt.fatal_iff {cfg : Cfg} {since : Int} {o : Attempt} {e : Err}
    (herr : o.outcome.err = some e) :
    o.Fatal cfg since e ↔ isTimeoutError e = false ∨ o.ShutDown ∨ o.Stalled cfg since := by
  rw [Attempt.Fatal, and_iff_right herr]
  cases isTimeoutError e <;> simp

/-- After a last attempt with an error that is not fatal the call has not returned. -/
theorem Exact.absorbed {cfg : Cfg} {p : Bytes} {os : List Attempt} {since : Int} {run : Run}
    (h : Exact cfg p os 0 since run) {pre : List Offer} {x : Offer} {e : Err}
    (hoffers : run.offers = pre ++ [x]) (herr : x.attempt.outcome.err = some e)
    (hfatal : ¬ x.attempt.Fatal cfg (lastAccept since (pre ++ [x])) e) : run.result = none := by
  cases hresult : run.result with
  | none => rfl
  | some r =>
      obtain ⟨n, err⟩ := r
      exfalso
      cases err with
      | none =>
          -- the last attempt has left a byte out
          have hcount := h.count n none hresult
          have hall := h.success n hresult
          obtain ⟨hoffered, hne, haccepted⟩ := h.place pre x [] hoffers
          have hlt := Outcome.accepted_length_lt (List.length_pos_iff.mpr hne)
            (show x.attempt.outcome.err ≠ none by simp [herr])
          rw [← haccepted, hoffered, List.length_drop] at hlt
          rw [hoffers, acceptedOf_append, acceptedOf_cons, acceptedOf_nil, List.length_append,
            List.append_nil] at hcount
          omega
      | some e' =>
          obtain ⟨-, pre', x', hoffers', hfatal'⟩ := h.failure n e' hresult
          obtain ⟨rfl, hx⟩ := List.append_inj' (hoffers.symm.trans hoffers') rfl
          obtain rfl : x = x' := by simpa using hx
          obtain rfl : e = e' := Option.some.inj (herr.symm.trans hfatal'.1)
          exact hfatal hfatal'

/-- **Write is exact.**  `Write` makes its attempts in order, each with the bytes of `p` that are
not accepted yet.  What is accepted is the part of `p` that the returned count says, and it is all
of `p` exactly if no error is returned.  An attempt ends the call with its error exactly if the
error is no timeout, or the stream or the session is being shut down, or no byte was accepted for
`codecStallTimeout`; after any other timeout the call goes on, with the next attempt once the
socket has answered it.  Every attempt is a round of the threads of `CodecConn`, from the place and
with the clock that the attempts before leave. -/
theorem polling_write_exact (cfg : Cfg) (p : Bytes) (now : Int) (os : List Attempt)
    (hdeadline : ∀ o ∈ os, o.deadlineErr = none) :
    (write cfg p now os).offers.map Offer.attempt <+: os ∧
    ((write cfg p now os).result = none → (write cfg p now os).offers.map Offer.attempt = os) ∧
    (∀ pre x post, (write cfg p now os).offers = pre ++ x :: post →
      acceptedOf pre = p.take (acceptedOf pre).length ∧
      x.offered = p.drop (acceptedOf pre).length ∧ x.offered ≠ [] ∧
      x.accepted = x.attempt.outcome.accepted x.offered ∧
      x.IsRound cfg p (acceptedOf pre).length (lastAccept now pre) ∧
      ∀ e, x.attempt.outcome.err = some e →
        ((isTimeoutError e = false ∨ x.attempt.ShutDown ∨
          x.attempt.Stalled cfg (lastAccept now (pre ++ [x]))) ∧
          post = [] ∧ (write cfg p now os).result =
            some ((acceptedOf (pre ++ [x])).length, some e)) ∨
        (isTimeoutError e = true ∧ ¬ x.attempt.ShutDown ∧
          ¬ x.attempt.Stalled cfg (lastAccept now (pre ++ [x])) ∧
          (post ≠ [] ∨ (write cfg p now os).result = none))) ∧
    (∀ n err, (write cfg p now os).result = some (n, err) →
      acceptedOf (write cfg p now os).offers = p.take n ∧ n ≤ p.length ∧
      (err = none ↔ n = p.length) ∧
      ∀ e, err = some e → ∃ pre x, (write cfg p now os).offers = pre ++ [x] ∧
        x.attempt.outcome.err = some e) := by
  have h : Exact cfg p os 0 now (write cfg p now os) := exact_loop cfg p hdeadline 0 now
  have haccepted : acceptedOf (write cfg p now os).offers <+: p := h.accepted
  refine ⟨h.attempts, h.waiting, ?_, ?_⟩
  · intro pre x post hoffers
    have hpre : acceptedOf pre <+: p := by
      rw [hoffers, acceptedOf_append] at haccepted
      exact (List.prefix_append ..).trans haccepted
    obtain ⟨hoffered, hne, hx⟩ := h.place pre x post hoffers
    rw [Nat.zero_add] at hoffered
    have hwritten : (acceptedOf pre).length < p.length := by
      rw [hoffered, ne_eq, List.drop_eq_nil_iff] at hne
      exact Nat.not_le.mp hne
    have hround : x.IsRound cfg p (acceptedOf pre).length (lastAccept now pre) := by
      have hoffer : x = x.attempt.offer p (acceptedOf pre).length := by
        rw [Attempt.offer, ← hoffered, ← hx]
      have hmem : x.attempt ∈ os := by
        refine h.attempts.mem (List.mem_map_of_mem ?_)
        rw [hoffers]
        exact List.mem_append_right pre List.mem_cons_self
      rw [hoffer]
      exact offer_isRound cfg _ hwritten (hdeadline _ hmem)
    refine ⟨List.prefix_iff_eq_take.mp hpre, hoffered, hne, hx, hround, ?_⟩
    intro e herr
    by_cases hfatal : x.attempt.Fatal cfg (lastAccept now (pre ++ [x])) e
    · left
      obtain ⟨hpost, n, hresult⟩ := h.ends pre x post hoffers e hfatal
      have hcount := h.count n (some e) hresult
      rw [hoffers, hpost, Nat.zero_add] at hcount
      exact ⟨(Attempt.fatal_iff herr).mp hfatal, hpost, by rw [hresult, hcount]⟩
    · right
      have hnot := fun hcause => hfatal ((Attempt.fatal_iff herr).mpr hcause)
      refine ⟨Bool.not_eq_false _ ▸ fun hno => hnot (Or.inl hno),
        fun hshut => hnot (Or.inr (Or.inl hshut)),
        fun hstall => hnot (Or.inr (Or.inr hstall)), ?_⟩
      by_cases hpost : post = []
      · exact Or.inr (h.absorbed (hpost ▸ hoffers) herr hfatal)
      · exact Or.inl hpost
  · intro n err hresult
    have hcount := h.count n err hresult
    rw [Nat.zero_add] at hcount
    have hle : n ≤ p.length := hcount ▸ haccepted.length_le
    refine ⟨?_, hle, ?_, ?_⟩
    · rw [hcount]
      exact List.prefix_iff_eq_take.mp haccepted
    · cases err with
      | none => exact ⟨fun _ => Nat.le_antisymm hle (h.success n hresult), fun _ => rfl⟩
      | some e =>
          have hlt := (h.failure n e hresult).1
          constructor
          · intro hnone
            cases hnone
          · intro hall
            omega
    · rintro e rfl
      obtain ⟨-, pre, x, hoffers, hfatal⟩ := h.failure n e hresult
      exact ⟨pre, x, hoffers, hfatal.1⟩

/-- Two of three bytes are accepted with a timeout, then nothing for less than the stall timeout,
then the last byte. -/
theorem polling_write_exact_three :
    (write ⟨10⟩ [1, 2, 3] 0
      [⟨4, 0, 0, none, .part 2 .timeout, 4, false, false, false, 4⟩,
        ⟨4, 4, 4, none, .part 0 .timeout, 8, false, false, false, 8⟩,
        ⟨4, 8, 8, none, .all, 9, false, false, false, 9⟩]).result = some (3, none) ∧
    acceptedOf (write ⟨10⟩ [1, 2, 3] 0
      [⟨4, 0, 0, none, .part 2 .timeout, 4, false, false, false, 4⟩,
        ⟨4, 4, 4, none, .part 0 .timeout, 8, false, false, false, 8⟩,
        ⟨4, 8, 8, none, .all, 9, false, false, false, 9⟩]).offers = [1, 2, 3] := by
  have hexact := polling_write_exact ⟨10⟩ [1, 2, 3] 0
      [⟨4, 0, 0, none, .part 2 .timeout, 4, false, false, false, 4⟩,
        ⟨4, 4, 4, none, .part 0 .timeout, 8, false, false, false, 8⟩,
        ⟨4, 8, 8, none, .all, 9, false, false, false, 9⟩] (by decide)
  exact ⟨by decide, (hexact.2.2.2 3 none (by decide)).1⟩

end Getty.Transport.CodecWriter
