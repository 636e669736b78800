import Getty.Transport.CodecStream

/-!
# Stall detection on a codec stream

`fill` absorbs the timeouts of an idle stream and surfaces those of a stalled one.  What it goes
by is `progress`, which a delivery sets and `boundary` clears, and the time of the last delivery.
Here the decoder's calls of `Read` and `ReadByte` and the calls of `boundary` come in any order,
and every call that finds the buffer empty brings the rounds of its `fill`.

## Main results

* `calls_progress`, `calls_lastDelivery` — the reader's state is what the replies say.
* `fill_failed_iff` — the timeouts that `fill` returns.
* `stall_detection_exact` — both, with what becomes of every other round.
-/

namespace Getty.Transport.CodecStream

open Getty.Transport.CodecConn (Cfg Err isTimeoutError millisecond)

namespace PollingReader

/-! ## The source -/

/-- `fill`, as far as its rounds go: `again` means that it is still polling. -/
def fill (cfg : Cfg) (r : PollingReader) : List ReadPoll → Fill
  | [] => .again
  | o :: os =>
      match r.fillRound cfg o with
      | .filled r' => .filled r'
      | .failed e => .failed e
      | .again => r.fill cfg os

/-- `Read` and `ReadByte` call `fill` when there is nothing in `buf`. -/
def ready (cfg : Cfg) (r : PollingReader) (polls : List ReadPoll) : Fill :=
  if r.next = r.fin then r.fill cfg polls else .filled r

end PollingReader

/-- A call on the reader, with the rounds of its `fill` and the clock when it delivers. -/
inductive Call where
  | read (size : Nat) (polls : List ReadPoll) (now : Int)
  | readByte (polls : List ReadPoll) (now : Int)
  | boundary
  deriving Repr, DecidableEq

/-- What a call comes to: bytes are delivered at some time, an error is returned, or the
progress is forgotten. -/
inductive Reply where
  | bytes (b : Bytes) (now : Int)
  | failed (err : Err)
  | boundary
  deriving Repr, DecidableEq

namespace PollingReader

/-- One call; `none` if it is still polling. -/
def call (cfg : Cfg) (r : PollingReader) : Call → Option (Reply × PollingReader)
  | .read size polls now =>
      match r.ready cfg polls with
      | .filled r' => some (.bytes (r'.read size now).1 now, (r'.read size now).2)
      | .failed e => some (.failed e, r)
      | .again => none
  | .readByte polls now =>
      match r.ready cfg polls with
      | .filled r' => (r'.readByte now).map fun out => (.bytes [out.1] now, out.2)
      | .failed e => some (.failed e, r)
      | .again => none
  | .boundary => some (.boundary, r.boundary)

/-- Some calls, each of which has returned before the next one. -/
def calls (cfg : Cfg) : PollingReader → List Call → Option (List Reply × PollingReader)
  | r, [] => some ([], r)
  | r, c :: cs =>
      (r.call cfg c).bind fun out =>
        (calls cfg out.2 cs).map fun rest => (out.1 :: rest.1, rest.2)

/-! ## What a call does -/

/-- A round fills the buffer with the data of the socket, and delivers nothing yet. -/
private theorem fillRound_filled {cfg : Cfg} {r r' : PollingReader} {o : ReadPoll}
    (h : r.fillRound cfg o = .filled r') :
    r'.pending = o.data ∧ o.data ≠ [] ∧ r'.progress = r.progress ∧
      r'.lastDelivery = r.lastDelivery := by
  have hfits := r.fillRound_fits cfg o
  rw [h] at hfits
  refine ⟨hfits.1, hfits.2, ?_⟩
  have hround : r.readRound cfg o = .filled r' := by
    unfold fillRound at h
    split at h
    · cases h
    · exact h
  rw [readRound, if_pos hfits.2] at hround
  obtain rfl := Fill.filled.inj hround
  exact ⟨rfl, rfl⟩

private theorem fill_filled {cfg : Cfg} {r r' : PollingReader} {os : List ReadPoll}
    (h : r.fill cfg os = .filled r') :
    r'.pending ≠ [] ∧ r'.progress = r.progress ∧ r'.lastDelivery = r.lastDelivery := by
  induction os with
  | nil => cases h
  | cons o os ih =>
      rw [fill] at h
      split at h
      · next r₁ hround =>
          obtain rfl := Fill.filled.inj h
          obtain ⟨hpending, hdata, hsame⟩ := fillRound_filled hround
          exact ⟨hpending ▸ hdata, hsame⟩
      · cases h
      · exact ih h

private theorem ready_filled {cfg : Cfg} {r r' : PollingReader} {polls : List ReadPoll}
    (h : r.ready cfg polls = .filled r') :
    r'.pending ≠ [] ∧ r'.progress = r.progress ∧ r'.lastDelivery = r.lastDelivery := by
  unfold ready at h
  split at h
  · exact fill_filled h
  · next hne =>
      obtain rfl := Fill.filled.inj h
      exact ⟨mt r.pending_eq_nil.mp hne, rfl, rfl⟩

/-- What a reply says about the reader. -/
def Told (r r' : PollingReader) : Reply → Prop
  | .bytes _ now => r'.progress = true ∧ r'.lastDelivery = now
  | .failed _ => r' = r
  | .boundary => r'.progress = false ∧ r'.lastDelivery = r.lastDelivery

/-- **Step lemma.**  A delivery sets the progress and its time, `boundary` clears the progress,
and an error leaves the reader as it was. -/
theorem call_told {cfg : Cfg} {r r' : PollingReader} {c : Call} {reply : Reply}
    (h : r.call cfg c = some (reply, r')) : Told r r' reply := by
  cases c with
  | read size polls now =>
      rw [call] at h
      split at h
      · cases h
        exact ⟨rfl, rfl⟩
      · cases h
        rfl
      · cases h
  | readByte polls now =>
      rw [call] at h
      split at h
      · obtain ⟨⟨b, r₁⟩, hbyte, hout⟩ := Option.map_eq_some_iff.mp h
        cases hout
        obtain ⟨b', -, hr⟩ := Option.map_eq_some_iff.mp hbyte
        cases hr
        exact ⟨rfl, rfl⟩
      · cases h
        rfl
      · cases h
  | boundary =>
      cases h
      exact ⟨rfl, rfl⟩

/-- A delivery has at least one byte, except to a `Read` with an empty buffer. -/
private theorem call_bytes {cfg : Cfg} {r r' : PollingReader} {c : Call} {b : Bytes} {now : Int}
    (h : r.call cfg c = some (.bytes b now, r')) :
    b ≠ [] ∨ ∃ polls, c = .read 0 polls now := by
  cases c with
  | read size polls now' =>
      rw [call] at h
      split at h
      · next r₁ hready =>
          cases h
          cases size with
          | zero => exact Or.inr ⟨polls, rfl⟩
          | succ size =>
              left
              intro hnil
              rcases List.take_eq_nil_iff.mp hnil with hzero | hpending
              · cases hzero
              · exact (ready_filled hready).1 hpending
      · cases h
      · cases h
  | readByte polls now' =>
      rw [call] at h
      split at h
      · obtain ⟨⟨b', r₁⟩, -, hout⟩ := Option.map_eq_some_iff.mp h
        cases hout
        exact Or.inl (List.cons_ne_nil _ _)
      · cases h
      · cases h
  | boundary => cases h

/-! ## What the replies say -/

/-- Bytes have been delivered since the last `boundary`, or since the start. -/
def Recent (replies : List Reply) : Prop :=
  ∃ pre b now post, replies = pre ++ .bytes b now :: post ∧ Reply.boundary ∉ post

private theorem recent_cons (reply : Reply) (replies : List Reply) :
    Recent (reply :: replies) ↔
      Recent replies ∨ (∃ b now, reply = .bytes b now) ∧ Reply.boundary ∉ replies := by
  constructor
  · rintro ⟨pre, b, now, post, heq, hpost⟩
    cases pre with
    | nil =>
        obtain ⟨rfl, rfl⟩ := List.cons.inj heq
        exact Or.inr ⟨⟨b, now, rfl⟩, hpost⟩
    | cons first pre =>
        obtain ⟨rfl, rfl⟩ := List.cons.inj heq
        exact Or.inl ⟨pre, b, now, post, rfl, hpost⟩
  · rintro (⟨pre, b, now, post, rfl, hpost⟩ | ⟨⟨b, now, rfl⟩, hpost⟩)
    · exact ⟨reply :: pre, b, now, post, rfl, hpost⟩
    · exact ⟨[], b, now, replies, rfl, hpost⟩

/-- The time of the last delivery, `t` if there is none. -/
def lastTime (t : Int) : List Reply → Int
  | [] => t
  | .bytes _ now :: replies => lastTime now replies
  | .failed _ :: replies => lastTime t replies
  | .boundary :: replies => lastTime t replies

theorem calls_cons {cfg : Cfg} {r r' : PollingReader} {c : Call} {cs : List Call}
    {replies : List Reply} (h : r.calls cfg (c :: cs) = some (replies, r')) :
    ∃ reply r₁ rest, r.call cfg c = some (reply, r₁) ∧ r₁.calls cfg cs = some (rest, r') ∧
      replies = reply :: rest := by
  obtain ⟨⟨reply, r₁⟩, hcall, hrest⟩ := Option.bind_eq_some_iff.mp h
  obtain ⟨⟨rest, r₂⟩, hcalls, hout⟩ := Option.map_eq_some_iff.mp hrest
  cases hout
  exact ⟨reply, r₁, rest, hcall, hcalls, rfl⟩

/-- **Run lemma.**  The progress of the reader is that of the replies; the induction is on the
calls, from any reader. -/
theorem calls_progress {cfg : Cfg} {r r' : PollingReader} {cs : List Call} {replies : List Reply}
    (h : r.calls cfg cs = some (replies, r')) :
    r'.progress = true ↔
      Recent replies ∨ r.progress = true ∧ Reply.boundary ∉ replies := by
  induction cs generalizing r replies with
  | nil =>
      cases h
      simp [Recent]
  | cons c cs ih =>
      obtain ⟨reply, r₁, rest, hcall, hrest, rfl⟩ := calls_cons h
      have htold := call_told hcall
      rw [ih hrest, recent_cons]
      cases reply with
      | bytes b now =>
          simp only [htold.1, true_and, Reply.bytes.injEq, exists_and_left, exists_eq', and_true,
            List.mem_cons, reduceCtorEq, false_or]
          exact ⟨Or.inl, fun h => h.elim id fun h => Or.inr h.2⟩
      | failed e => simp [show r₁ = r from htold]
      | boundary => simp [htold.1]

/-- The time of the last delivery is that of the replies. -/
theorem calls_lastDelivery {cfg : Cfg} {r r' : PollingReader} {cs : List Call}
    {replies : List Reply} (h : r.calls cfg cs = some (replies, r')) :
    r'.lastDelivery = lastTime r.lastDelivery replies := by
  induction cs generalizing r replies with
  | nil =>
      cases h
      rfl
  | cons c cs ih =>
      obtain ⟨reply, r₁, rest, hcall, hrest, rfl⟩ := calls_cons h
      have htold := call_told hcall
      rw [ih hrest]
      cases reply with
      | bytes b now => rw [htold.2, lastTime]
      | failed e => rw [show r₁ = r from htold, lastTime]
      | boundary => rw [htold.2, lastTime]

/-- Every delivery is one to a call that asks for bytes. -/
theorem calls_bytes {cfg : Cfg} {r r' : PollingReader} {cs : List Call} {replies : List Reply}
    (h : r.calls cfg cs = some (replies, r')) {c : Call} {now : Int}
    (hmem : (c, Reply.bytes [] now) ∈ cs.zip replies) : ∃ polls, c = .read 0 polls now := by
  induction cs generalizing r replies with
  | nil => simp at hmem
  | cons c' cs ih =>
      obtain ⟨reply, r₁, rest, hcall, hrest, rfl⟩ := calls_cons h
      rcases List.mem_cons.mp hmem with heq | htail
      · cases heq
        exact (call_bytes hcall).resolve_left fun hne => hne rfl
      · exact ih hrest htail

/-! ## What a round comes to -/

/-- A timeout counts: the stream is broken or the session closing, or the stream has stalled. -/
def Surfaces (cfg : Cfg) (r : PollingReader) (o : ReadPoll) : Prop :=
  o.shutdown = true ∨
    r.progress = true ∧ 0 < cfg.codecStallTimeout ∧
      cfg.codecStallTimeout ≤ o.testedAt - r.lastDelivery

theorem fillRound_armed (cfg : Cfg) {o : ReadPoll} (r : PollingReader)
    (h : o.deadlineErr = none) : r.fillRound cfg o = r.readRound cfg o := by
  unfold fillRound
  rw [h]
  split
  · next heq => cases heq
  · rfl

/-- Nothing arrives and there is no error. -/
theorem readRound_none (cfg : Cfg) {o : ReadPoll} (r : PollingReader) (hdata : o.data = [])
    (herr : o.err = none) : r.readRound cfg o = .again := by
  rw [readRound, if_neg (not_not_intro hdata), herr]

theorem readRound_other (cfg : Cfg) {o : ReadPoll} {e : Err} (r : PollingReader)
    (hdata : o.data = []) (herr : o.err = some e) (he : isTimeoutError e = false) :
    r.readRound cfg o = .failed e := by
  rw [readRound, if_neg (not_not_intro hdata), herr]
  simp only [he, Bool.not_false, if_true]

/-- A timeout without data ends `fill` exactly if it counts. -/
theorem readRound_timeout (cfg : Cfg) {o : ReadPoll} {e : Err} (r : PollingReader)
    (hdata : o.data = []) (herr : o.err = some e) (he : isTimeoutError e = true) :
    Surfaces cfg r o ∧ r.readRound cfg o = .failed e ∨
      ¬ Surfaces cfg r o ∧ r.readRound cfg o = .again := by
  rw [readRound, if_neg (not_not_intro hdata), herr]
  simp only [he, Bool.not_true, Bool.false_eq_true, if_false, Surfaces]
  cases o.shutdown with
  | true => exact Or.inl ⟨Or.inl rfl, rfl⟩
  | false =>
      simp only [Bool.false_eq_true, false_or, if_false]
      split
      · next hstall => exact Or.inl ⟨hstall, rfl⟩
      · next hstall => exact Or.inr ⟨hstall, rfl⟩

/-- Data comes first, whatever error there is with it. -/
theorem readRound_data (cfg : Cfg) {o : ReadPoll} (r : PollingReader) (hdata : o.data ≠ []) :
    ∃ r', r.readRound cfg o = .filled r' ∧ r'.pending = o.data ∧ r'.progress = r.progress ∧
      r'.lastDelivery = r.lastDelivery :=
  ⟨_, if_pos hdata, List.take_length, rfl, rfl⟩

/-- The poll timeout is positive, and a failure to set the deadline is no timeout. -/
structure Regular (o : ReadPoll) : Prop where
  rTimeout : 0 < o.rTimeout
  deadline : ∀ e, o.deadlineErr = some e → isTimeoutError e = false

private theorem fillRound_deadlineErr (cfg : Cfg) {o : ReadPoll} {e : Err} (r : PollingReader)
    (hpos : 0 < o.rTimeout) (h : o.deadlineErr = some e) : r.fillRound cfg o = .failed e := by
  have harmed : ∃ d, r.readDeadline cfg o = some d := by
    simp only [readDeadline, if_pos hpos]
    split
    · exact ⟨_, rfl⟩
    · exact ⟨_, rfl⟩
  obtain ⟨d, hd⟩ := harmed
  simp only [fillRound, hd, h]

/-- A round ends `fill` with a timeout exactly if `conn.Read` times out without data and the
timeout counts. -/
private theorem fillRound_timeout_iff (cfg : Cfg) {o : ReadPoll} {e : Err} (r : PollingReader)
    (ho : Regular o) (he : isTimeoutError e = true) :
    r.fillRound cfg o = .failed e ↔
      o.deadlineErr = none ∧ o.data = [] ∧ o.err = some e ∧ Surfaces cfg r o := by
  constructor
  · intro hfail
    have hdeadline : o.deadlineErr = none := by
      cases hd : o.deadlineErr with
      | none => rfl
      | some e' =>
          rw [fillRound_deadlineErr cfg r ho.rTimeout hd] at hfail
          obtain rfl := Fill.failed.inj hfail
          exact absurd he (by simp [ho.deadline e' hd])
    rw [fillRound_armed cfg r hdeadline] at hfail
    have hdata : o.data = [] := by
      by_contra hne
      obtain ⟨r', hfilled, -⟩ := readRound_data cfg r hne
      cases hfilled.symm.trans hfail
    cases herr : o.err with
    | none => cases (readRound_none cfg r hdata herr).symm.trans hfail
    | some e' =>
        cases he' : isTimeoutError e' with
        | false =>
            obtain rfl := Fill.failed.inj ((readRound_other cfg r hdata herr he').symm.trans hfail)
            exact absurd he (by simp [he'])
        | true =>
            rcases readRound_timeout cfg r hdata herr he' with ⟨hs, hround⟩ | ⟨-, hround⟩
            · obtain rfl := Fill.failed.inj (hround.symm.trans hfail)
              exact ⟨hdeadline, hdata, rfl, hs⟩
            · cases hround.symm.trans hfail
  · rintro ⟨hdeadline, hdata, herr, hs⟩
    rw [fillRound_armed cfg r hdeadline]
    exact ((readRound_timeout cfg r hdata herr he).resolve_right fun h => h.1 hs).2

/-! ## The rounds of `fill` -/

/-- The rounds that are absorbed leave no trace. -/
theorem fill_append {cfg : Cfg} {r : PollingReader} {pre : List ReadPoll}
    (h : r.fill cfg pre = .again) (post : List ReadPoll) :
    r.fill cfg (pre ++ post) = r.fill cfg post := by
  induction pre with
  | nil => rfl
  | cons o pre ih =>
      rw [List.cons_append]
      cases hround : r.fillRound cfg o with
      | filled r' => simp [fill, hround] at h
      | failed e => simp [fill, hround] at h
      | again =>
          simp only [fill, hround] at h ⊢
          exact ih h

/-- `fill` fails in the first round that is not absorbed. -/
theorem fill_failed_iff {cfg : Cfg} {r : PollingReader} {os : List ReadPoll} {e : Err} :
    r.fill cfg os = .failed e ↔ ∃ pre o post, os = pre ++ o :: post ∧
      r.fill cfg pre = .again ∧ r.fillRound cfg o = .failed e := by
  constructor
  · intro hfail
    induction os with
    | nil => cases hfail
    | cons o os ih =>
        rw [fill] at hfail
        split at hfail
        · cases hfail
        · next e' hround =>
            obtain rfl := Fill.failed.inj hfail
            exact ⟨[], o, os, rfl, rfl, hround⟩
        · next hround =>
            obtain ⟨pre, o', post, rfl, hpre, hround'⟩ := ih hfail
            refine ⟨o :: pre, o', post, rfl, ?_, hround'⟩
            simp only [fill, hround, hpre]
  · rintro ⟨pre, o, post, rfl, hpre, hround⟩
    rw [fill_append hpre, fill, hround]

/-- While the reader waits for the rest of a block, no deadline lies after the end of the stall
time, unless that is less than a millisecond away. -/
theorem readDeadline_le (cfg : Cfg) {o : ReadPoll} (r : PollingReader) (hpos : 0 < o.rTimeout)
    (hprogress : r.progress = true) (hstall : 0 < cfg.codecStallTimeout)
    (hclock : o.sinceAt = o.armedAt) :
    ∃ d, r.readDeadline cfg o = some d ∧
      d ≤ max (r.lastDelivery + cfg.codecStallTimeout) (o.armedAt + millisecond) := by
  simp only [readDeadline, if_pos hpos, hprogress, hstall, true_and, hclock]
  split
  · next hlt =>
      refine ⟨_, rfl, ?_⟩
      omega
  · next hge =>
      refine ⟨_, rfl, ?_⟩
      omega

/-! ## Stall detection -/

/-- **Stall detection is exact.**  After any calls, `progress` says whether one of them delivered
bytes after the last `boundary`; only a `Read` with an empty buffer counts without a byte.  In the
`fill` of the next call a round is reached if those before it were absorbed.  There `fill` returns
a timeout exactly if `conn.Read` timed out without data and the stream is broken or the session
closing, or there is progress and `codecStallTimeout` has passed since the last delivery; it
absorbs any other timeout, returns another error as it is, and takes data before an error.  With
progress, no deadline lies after the end of the stall time and a millisecond from now. -/
theorem stall_detection_exact (cfg : Cfg) {cs : List Call} {replies : List Reply}
    {r : PollingReader} (hrun : init.calls cfg cs = some (replies, r)) :
    (r.progress = true ↔ Recent replies) ∧
    r.lastDelivery = lastTime init.lastDelivery replies ∧
    (∀ c now, (c, Reply.bytes [] now) ∈ cs.zip replies → ∃ polls, c = .read 0 polls now) ∧
    (∀ os : List ReadPoll, (∀ o ∈ os, Regular o) → ∀ e, isTimeoutError e = true →
      (r.fill cfg os = .failed e ↔ ∃ pre o post, os = pre ++ o :: post ∧
        r.fill cfg pre = .again ∧ o.deadlineErr = none ∧ o.data = [] ∧ o.err = some e ∧
        (o.shutdown = true ∨ Recent replies ∧ 0 < cfg.codecStallTimeout ∧
          cfg.codecStallTimeout ≤ o.testedAt - lastTime init.lastDelivery replies))) ∧
    (∀ pre o post, r.fill cfg pre = .again → o.deadlineErr = none →
      (o.data ≠ [] → ∃ r', r.fill cfg (pre ++ o :: post) = .filled r' ∧ r'.pending = o.data) ∧
      (o.data = [] → o.err = none → r.fill cfg (pre ++ o :: post) = r.fill cfg post) ∧
      ∀ e, o.data = [] → o.err = some e →
        (isTimeoutError e = false → r.fill cfg (pre ++ o :: post) = .failed e) ∧
        (isTimeoutError e = true → ¬ (o.shutdown = true ∨ Recent replies ∧
            0 < cfg.codecStallTimeout ∧
            cfg.codecStallTimeout ≤ o.testedAt - lastTime init.lastDelivery replies) →
          r.fill cfg (pre ++ o :: post) = r.fill cfg post)) ∧
    (∀ o : ReadPoll, 0 < o.rTimeout → Recent replies → 0 < cfg.codecStallTimeout →
      o.sinceAt = o.armedAt → ∃ d, r.readDeadline cfg o = some d ∧
        d ≤ max (lastTime init.lastDelivery replies + cfg.codecStallTimeout)
          (o.armedAt + millisecond)) := by
  have hprogress : r.progress = true ↔ Recent replies := by
    simpa [init] using calls_progress hrun
  have hlast := calls_lastDelivery hrun
  have hsurfaces : ∀ o, Surfaces cfg r o ↔ o.shutdown = true ∨ Recent replies ∧
      0 < cfg.codecStallTimeout ∧
      cfg.codecStallTimeout ≤ o.testedAt - lastTime init.lastDelivery replies := by
    intro o
    rw [Surfaces, hprogress, hlast]
  have hround : ∀ pre o post, r.fill cfg pre = .again → o.deadlineErr = none →
      r.fill cfg (pre ++ o :: post) = match r.readRound cfg o with
        | .filled r' => .filled r'
        | .failed e => .failed e
        | .again => r.fill cfg post := by
    intro pre o post hpre hdeadline
    rw [fill_append hpre, fill, fillRound_armed cfg r hdeadline]
  refine ⟨hprogress, hlast, fun c now => calls_bytes hrun, ?_, ?_, ?_⟩
  · intro os hos e he
    rw [fill_failed_iff]
    constructor
    · rintro ⟨pre, o, post, rfl, hpre, hfail⟩
      have hiff := fillRound_timeout_iff cfg r (hos o (by simp)) he
      rw [hsurfaces] at hiff
      exact ⟨pre, o, post, rfl, hpre, hiff.mp hfail⟩
    · rintro ⟨pre, o, post, rfl, hpre, hcause⟩
      have hiff := fillRound_timeout_iff cfg r (hos o (by simp)) he
      rw [hsurfaces] at hiff
      exact ⟨pre, o, post, rfl, hpre, hiff.mpr hcause⟩
  · intro pre o post hpre hdeadline
    rw [hround pre o post hpre hdeadline]
    refine ⟨?_, ?_, ?_⟩
    · intro hdata
      obtain ⟨r', hfilled, hpending, -⟩ := readRound_data cfg r hdata
      exact ⟨r', by rw [hfilled], hpending⟩
    · intro hdata herr
      rw [readRound_none cfg r hdata herr]
    · intro e hdata herr
      constructor
      · intro he
        rw [readRound_other cfg r hdata herr he]
      · intro he hnot
        rw [← hsurfaces] at hnot
        rw [((readRound_timeout cfg r hdata herr he).resolve_left fun h => hnot h.1).2]
  · intro o hpos hrecent hstall hclock
    rw [← hlast]
    exact readDeadline_le cfg r hpos (hprogress.mpr hrecent) hstall hclock

/-- Two of three bytes are delivered, the second one from the buffer. -/
def midBlock : List Call :=
  [.read 1 [⟨5, 0, 0, none, [], some .timeout, false, 90⟩,
      ⟨5, 0, 0, none, [1, 2, 3], some .eof, false, 0⟩] 100,
    .readByte [] 101]

/-- A timeout before the end of the stall time is absorbed, and one at its end is returned. -/
theorem stall_detection_exact_mid_block :
    ∃ replies r, init.calls ⟨10⟩ midBlock = some (replies, r) ∧ r.progress = true ∧
      r.fill ⟨10⟩ [⟨50, 103, 103, none, [], some .timeout, false, 110⟩,
        ⟨50, 110, 110, none, [], some .timeout, false, 111⟩] = .failed .timeout := by
  refine ⟨_, _, rfl, rfl, ?_⟩
  have hexact := stall_detection_exact ⟨10⟩
    (show init.calls ⟨10⟩ midBlock = some (_, _) from rfl)
  refine (hexact.2.2.2.1 _ ?_ .timeout rfl).mpr
    ⟨[⟨50, 103, 103, none, [], some .timeout, false, 110⟩],
      ⟨50, 110, 110, none, [], some .timeout, false, 111⟩, [], rfl, rfl, rfl, rfl, rfl,
      Or.inr ⟨⟨[.bytes [1] 100], [2], 101, [], rfl, by simp⟩, by decide, by decide⟩⟩
  intro o ho
  simp only [List.mem_cons, List.not_mem_nil, or_false] at ho
  rcases ho with rfl | rfl
  · exact ⟨by decide, by simp⟩
  · exact ⟨by decide, by simp⟩

/-- **An empty `Read` counts as progress.**  Nothing has been delivered, and the stream counts as
being within a block. -/
theorem empty_read_marks_progress :
    ∃ r, init.calls ⟨10⟩ [.read 0 [⟨5, 0, 0, none, [1], none, false, 0⟩] 100] =
        some ([.bytes [] 100], r) ∧ r.progress = true ∧ r.pending = [1] :=
  ⟨_, rfl, rfl, rfl⟩

end PollingReader

end Getty.Transport.CodecStream
