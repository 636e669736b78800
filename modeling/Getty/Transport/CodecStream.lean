import Getty.Transport.CodecLatch

/-!
# A codec stream from end to end

The reading side of a codec stream.  The decoder takes its input from a
`codecPollingReader`, through `Read` and `ReadByte` in any order.  The reader keeps the
bytes of the last `conn.Read` that it has not delivered yet, and gets more only when there
are none left; timeouts that `fill` absorbs leave no trace.

What happens is a list of events: calls of `recv`, rounds of `fill`, and steps of the
decoder.  The bytes delivered to the decoder, those in the buffer and those still on their
way are always the wire, in this order.  With the invariant of the writing side and the
transparency of the codec this says what `recv` returns.

## Main results

* `Peer.step_delivered` — no byte is lost, duplicated or reordered on the reading side.
* `wire_eq_output` — as long as nothing has failed, the wire is the codec's output.
* `codec_stream_transparent` — what `recv` returns is what was sent.
-/

namespace Getty.Transport.CodecStream

open Getty.Verified.ThreadPool Getty.Verified.StreamCodec
open Getty.Transport.WriteCount (Arg)
open Getty.Transport.CodecConn (Cfg Err isTimeoutError millisecond)

/-! ## The polling reader -/

/-- `codecPollingReader`; `buf` is what the last `conn.Read` has stored. -/
structure PollingReader where
  buf : Bytes
  next : Nat
  fin : Nat
  progress : Bool
  lastDelivery : Int
  ordered : next ≤ fin
  bounded : fin ≤ buf.length
  deriving Repr, DecidableEq

/-- One round of `fill`: the read timeout it loads, the clock for the remaining stall time
and for the deadline, the error of `SetReadDeadline`, the two results of `conn.Read`, whether
the stream is broken or the session closing, and the clock for the stall test. -/
structure ReadPoll where
  rTimeout : Int
  sinceAt : Int
  armedAt : Int
  deadlineErr : Option Err
  data : Bytes
  err : Option Err
  shutdown : Bool
  testedAt : Int
  deriving Repr, DecidableEq

namespace PollingReader

def init : PollingReader := ⟨[], 0, 0, false, 0, Nat.le_refl 0, Nat.le_refl 0⟩

/-- The bytes in `buf` that the decoder has not got yet. -/
def pending (r : PollingReader) : Bytes := (r.buf.take r.fin).drop r.next

def boundary (r : PollingReader) : PollingReader := { r with progress := false }

def markDelivery (r : PollingReader) (now : Int) : PollingReader :=
  { r with progress := true, lastDelivery := now }

/-- The deadline a round of `fill` arms. -/
def readDeadline (cfg : Cfg) (r : PollingReader) (o : ReadPoll) : Option Int :=
  if 0 < o.rTimeout then
    let remaining := cfg.codecStallTimeout - (o.sinceAt - r.lastDelivery)
    if r.progress ∧ 0 < cfg.codecStallTimeout ∧ remaining < o.rTimeout then
      some (o.armedAt + max remaining millisecond)
    else some (o.armedAt + o.rTimeout)
  else none

/-- What a round of `fill` comes to. -/
inductive Fill where
  | filled (r : PollingReader)
  | again
  | failed (e : Err)
  deriving Repr, DecidableEq

/-- A round of `fill` from `conn.Read` on. -/
def readRound (cfg : Cfg) (r : PollingReader) (o : ReadPoll) : Fill :=
  if o.data ≠ [] then
    .filled { r with
      buf := o.data, next := 0, fin := o.data.length
      ordered := Nat.zero_le _, bounded := Nat.le_refl _ }
  else
    match o.err with
    | none => .again
    | some e =>
        if !isTimeoutError e then .failed e
        else if o.shutdown then .failed e
        else if r.progress ∧ 0 < cfg.codecStallTimeout ∧
            cfg.codecStallTimeout ≤ o.testedAt - r.lastDelivery then .failed e
        else .again

/-- One round of `fill`. -/
def fillRound (cfg : Cfg) (r : PollingReader) (o : ReadPoll) : Fill :=
  match r.readDeadline cfg o, o.deadlineErr with
  | some _, some e => .failed e
  | _, _ => r.readRound cfg o

theorem length_pending (r : PollingReader) : r.pending.length = r.fin - r.next := by
  simp only [pending, List.length_drop, List.length_take]
  rw [Nat.min_eq_left r.bounded]

/-- The buffer position moves on by `n` bytes, or to its end. -/
def advance (r : PollingReader) (n : Nat) : PollingReader :=
  { r with
    next := r.next + (r.pending.take n).length
    ordered := by
      have := r.ordered
      rw [List.length_take, length_pending]
      omega }

/-- `Read` once there is something in `buf`. -/
def read (r : PollingReader) (n : Nat) (now : Int) : Bytes × PollingReader :=
  (r.pending.take n, (r.advance n).markDelivery now)

/-- `ReadByte` once there is something in `buf`. -/
def readByte (r : PollingReader) (now : Int) : Option (UInt8 × PollingReader) :=
  r.pending.head?.map fun b => (b, (r.advance 1).markDelivery now)

end PollingReader

/-! ## `recv` -/

variable {κ δ : Type}

/-- The receiving connection: the reader, the decoder, the size of the buffer of the `recv`
in progress, the error the decoder has got from its source, and what `recv` has returned. -/
structure Peer (δ : Type) where
  reader : PollingReader
  dec : δ
  call : Option Nat
  failed : Option Err
  out : List Bytes

def Peer.init (D : Decoder UInt8 δ) : Peer δ := ⟨.init, D.init, none, none, []⟩

/-- What happens at the receiving connection: a call of `recv`, a round of `fill`, and a
step of the decoder. -/
inductive Event where
  | recv (size : Nat)
  | poll (o : ReadPoll)
  | go (now : Int)
  deriving Repr, DecidableEq

/-- The bytes that come from the socket. -/
def Event.data : Event → Bytes
  | .poll o => o.data
  | _ => []

def received (evs : List Event) : Bytes := evs.flatMap Event.data

/-- A round of `fill` on behalf of the decoder, when there is nothing in the buffer. -/
def Peer.poll (cfg : Cfg) (p : Peer δ) (o : ReadPoll) : Option (Peer δ) :=
  if p.reader.next = p.reader.fin then
    match p.reader.fillRound cfg o with
    | .filled r => some { p with reader := r }
    | .again => some p
    | .failed e => some { p with call := none, failed := some e }
  else none

/-- `recv` returns; decoded data means that the stream is at a block boundary. -/
def Peer.give (D : Decoder UInt8 δ) (p : Peer δ) (m : Nat) (out : Bytes) : Peer δ :=
  { p with
    reader := if out = [] then p.reader else p.reader.boundary
    dec := D.gave p.dec m, call := none, out := p.out ++ [out] }

/-- The decoder reads from the buffer, or `recv` returns. -/
def Peer.go (D : Decoder UInt8 δ) (p : Peer δ) (m : Nat) (now : Int) : Option (Peer δ) :=
  match D.next p.dec m with
  | .give out => some (p.give D m out)
  | .read n =>
      if p.reader.next = p.reader.fin then none
      else
        let (b, r) := p.reader.read n now
        some { p with reader := r, dec := D.fed p.dec m b }
  | .byte =>
      match p.reader.readByte now with
      | none => none
      | some (b, r) => some { p with reader := r, dec := D.fed p.dec m [b] }

/-- One event; `none` when it cannot happen. -/
def Peer.step (cfg : Cfg) (D : Decoder UInt8 δ) (p : Peer δ) : Event → Option (Peer δ)
  | .recv size =>
      if p.call = none ∧ p.failed = none then some { p with call := some size } else none
  | .poll o =>
      match p.call with
      | none => none
      | some m => if (D.next p.dec m).waits then p.poll cfg o else none
  | .go now =>
      match p.call with
      | none => none
      | some m => p.go D m now

def Peer.run (cfg : Cfg) (D : Decoder UInt8 δ) (p : Peer δ) : List Event → Option (Peer δ)
  | [] => some p
  | ev :: evs => (p.step cfg D ev).bind fun p' => p'.run cfg D evs

/-- `recv` waits for the socket: the decoder asks for more, and the buffer is empty. -/
def Peer.Waiting (D : Decoder UInt8 δ) (p : Peer δ) : Prop :=
  p.reader.pending = [] ∧ ∃ m, p.call = some m ∧ (D.next p.dec m).waits = true

/-! ## Nothing is lost on the reading side -/

namespace PollingReader

@[simp] theorem pending_markDelivery (r : PollingReader) (now : Int) :
    (r.markDelivery now).pending = r.pending := rfl

theorem pending_eq_nil (r : PollingReader) : r.pending = [] ↔ r.next = r.fin := by
  have hord := r.ordered
  rw [← List.length_eq_zero_iff, length_pending]
  omega

@[simp] theorem pending_advance (r : PollingReader) (n : Nat) :
    (r.advance n).pending = r.pending.drop n := by
  show (r.buf.take r.fin).drop (r.next + (r.pending.take n).length) = r.pending.drop n
  rw [← List.drop_drop]
  show r.pending.drop (r.pending.take n).length = r.pending.drop n
  rw [List.length_take]
  rcases Nat.le_total n r.pending.length with h | h
  · rw [Nat.min_eq_left h]
  · rw [Nat.min_eq_right h, List.drop_length, List.drop_of_length_le h]

/-- `Read` takes the bytes from the front of the buffer. -/
private theorem read_spec (r : PollingReader) (n : Nat) (now : Int) :
    (r.read n now).1 ++ (r.read n now).2.pending = r.pending := by
  simp only [read, pending_markDelivery, pending_advance, List.take_append_drop]

/-- `ReadByte` takes one byte from the front of the buffer. -/
theorem readByte_spec {r r' : PollingReader} {b : UInt8} {now : Int}
    (h : r.readByte now = some (b, r')) : b :: r'.pending = r.pending := by
  simp only [readByte, Option.map_eq_some_iff, Prod.mk.injEq] at h
  obtain ⟨c, hc, rfl, rfl⟩ := h
  obtain ⟨l, hl⟩ := List.head?_eq_some_iff.mp hc
  simp [hl]

/-- The empty buffer is filled with `data`, or everything is as it was and there is no
data. -/
def Fill.Fits (data : Bytes) : Fill → Prop
  | .filled r => r.pending = data ∧ data ≠ []
  | .again => data = []
  | .failed _ => True

private theorem readRound_fits (cfg : Cfg) (r : PollingReader) (o : ReadPoll) :
    (r.readRound cfg o).Fits o.data := by
  unfold readRound
  by_cases hdata : o.data = []
  · rw [if_neg (not_not_intro hdata)]
    cases o.err with
    | none => exact hdata
    | some e =>
        simp only
        split_ifs
        · trivial
        · trivial
        · trivial
        · exact hdata
  · rw [if_pos hdata]
    exact ⟨List.take_length, hdata⟩

/-- **A round of `fill`** keeps all that the socket delivers. -/
theorem fillRound_fits (cfg : Cfg) (r : PollingReader) (o : ReadPoll) :
    (r.fillRound cfg o).Fits o.data := by
  have hround := r.readRound_fits cfg o
  unfold fillRound
  split
  · trivial
  · exact hround

end PollingReader

/-- The decoder can have come here, and what it has read and what is in the buffer is
`got`. -/
def Peer.Delivered (D : Decoder UInt8 δ) (got : Bytes) (p : Peer δ) : Prop :=
  ∃ i, D.Reached i p.out.flatten p.dec p.call ∧ i ++ p.reader.pending = got

variable {cfg : Cfg} {D : Decoder UInt8 δ} {p p' : Peer δ} {got : Bytes}

theorem Peer.poll_delivered {o : ReadPoll} (h : p.Delivered D got)
    (hstep : p.poll cfg o = some p') (hok : p'.failed = none) :
    p'.Delivered D (got ++ o.data) := by
  obtain ⟨i, hreach, hi⟩ := h
  have hfits := p.reader.fillRound_fits cfg o
  simp only [Peer.poll] at hstep
  split at hstep
  · next hempty =>
      rw [p.reader.pending_eq_nil.mpr hempty, List.append_nil] at hi
      split at hstep
      · next r hfill =>
          cases hstep
          rw [hfill] at hfits
          exact ⟨i, hreach, by rw [hfits.1, hi]⟩
      · next hfill =>
          cases hstep
          rw [hfill] at hfits
          refine ⟨i, hreach, ?_⟩
          rw [show o.data = [] from hfits, p.reader.pending_eq_nil.mpr hempty, hi]
      · cases hstep
        cases hok
  · cases hstep

@[simp] theorem Peer.pending_give (p : Peer δ) (m : Nat) (out : Bytes) :
    (p.give D m out).reader.pending = p.reader.pending := by
  simp only [Peer.give]
  split <;> rfl

theorem Peer.go_delivered {m : Nat} {now : Int} (h : p.Delivered D got)
    (hcall : p.call = some m) (hstep : p.go D m now = some p') : p'.Delivered D got := by
  obtain ⟨i, hreach, hi⟩ := h
  rw [hcall] at hreach
  simp only [Peer.go] at hstep
  split at hstep
  · next out hnext =>
      cases hstep
      refine ⟨i, ?_, ?_⟩
      · simpa [Peer.give] using hreach.give hnext
      · rw [pending_give, hi]
  · next n hnext =>
      split at hstep
      · cases hstep
      · next hne =>
          cases hstep
          have hread := p.reader.read_spec n now
          refine ⟨i ++ (p.reader.read n now).1, ?_, ?_⟩
          · show D.Reached _ _ _ p.call
            rw [hcall]
            refine hreach.read _ hnext (List.length_take_le n _) (fun hnil => ?_)
            rcases List.take_eq_nil_iff.mp hnil with h0 | hp
            · exact h0
            · exact absurd (p.reader.pending_eq_nil.mp hp) hne
          · show i ++ (p.reader.read n now).1 ++ (p.reader.read n now).2.pending = got
            rw [List.append_assoc, hread, hi]
  · next hnext =>
      split at hstep
      · cases hstep
      · next b r hbyte =>
          cases hstep
          have hread := PollingReader.readByte_spec hbyte
          refine ⟨i ++ [b], ?_, ?_⟩
          · show D.Reached _ _ _ p.call
            rw [hcall]
            exact hreach.byte b hnext
          · show i ++ [b] ++ r.pending = got
            rw [List.append_assoc, List.singleton_append, hread, hi]

/-- A decoder that has got an error is not used again. -/
theorem Peer.step_failed {ev : Event} (hstep : p.step cfg D ev = some p')
    (hok : p'.failed = none) : p.failed = none := by
  cases ev with
  | recv size => grind [Peer.step]
  | poll o => grind [Peer.step, Peer.poll]
  | go now => grind [Peer.step, Peer.go, Peer.give]

/-- **Step lemma.**  No event loses, duplicates or reorders a byte. -/
theorem Peer.step_delivered {ev : Event} (h : p.Delivered D got)
    (hstep : p.step cfg D ev = some p') (hok : p'.failed = none) :
    p'.Delivered D (got ++ ev.data) := by
  cases ev with
  | recv size =>
      simp only [Peer.step] at hstep
      split at hstep
      · next hidle =>
          cases hstep
          obtain ⟨i, hreach, hi⟩ := h
          rw [hidle.1] at hreach
          refine ⟨i, hreach.call size, ?_⟩
          rw [hi]
          exact (List.append_nil got).symm
      · cases hstep
  | poll o =>
      simp only [Peer.step] at hstep
      split at hstep
      · cases hstep
      · split at hstep
        · exact poll_delivered h hstep hok
        · cases hstep
  | go now =>
      simp only [Peer.step] at hstep
      split at hstep
      · cases hstep
      · next m hcall =>
          rw [show got ++ (Event.go now).data = got from List.append_nil got]
          exact go_delivered h hcall hstep

theorem Peer.run_failed {evs : List Event} (hrun : p.run cfg D evs = some p')
    (hok : p'.failed = none) : p.failed = none := by
  induction evs generalizing p with
  | nil =>
      cases hrun
      exact hok
  | cons ev evs ih =>
      obtain ⟨p₁, hstep, hrest⟩ := Option.bind_eq_some_iff.mp hrun
      exact step_failed hstep (ih hrest)

/-- **Run lemma.**  What the decoder has read and what is in the buffer is what the socket
has delivered. -/
theorem Peer.run_delivered {evs : List Event} (h : p.Delivered D got)
    (hrun : p.run cfg D evs = some p') (hok : p'.failed = none) :
    p'.Delivered D (got ++ received evs) := by
  induction evs generalizing p got with
  | nil =>
      cases hrun
      simpa [received] using h
  | cons ev evs ih =>
      obtain ⟨p₁, hstep, hrest⟩ := Option.bind_eq_some_iff.mp hrun
      have hnext := ih (step_delivered h hstep (run_failed hrest hok)) hrest
      simpa [received] using hnext

theorem Peer.delivered_init (D : Decoder UInt8 δ) : (Peer.init D).Delivered D [] :=
  ⟨[], .init, rfl⟩

/-! ## What the decoder gives -/

variable {E : Encoder UInt8 κ} {blocks : List (List Bytes)}

/-- What has been returned is a part of what was written. -/
theorem Peer.Delivered.sound (h : p.Delivered D got) (hT : Transparent E D)
    (hgot : got <+: E.output blocks) : p.out.flatten <+: blocks.flatten.flatten := by
  obtain ⟨i, hreach, hi⟩ := h
  rw [← hi] at hgot
  exact hT.sound hreach ((List.prefix_append i _).trans hgot)

/-- A `recv` that waits for more than the whole output has nothing left to return. -/
theorem Peer.Delivered.complete (h : p.Delivered D (E.output blocks)) (hT : Transparent E D)
    (hw : p.Waiting D) : p.out.flatten = blocks.flatten.flatten := by
  obtain ⟨i, hreach, hi⟩ := h
  obtain ⟨hnil, m, hcall, hwaits⟩ := hw
  rw [hnil, List.append_nil] at hi
  rw [hi, hcall] at hreach
  exact hT.complete hreach hwaits

/-- The connection can go on until it has received `rest` and `recv` waits for more. -/
def Peer.Drains (cfg : Cfg) (D : Decoder UInt8 δ) (p : Peer δ) (rest : Bytes) : Prop :=
  ∃ evs p', p.run cfg D evs = some p' ∧ p'.failed = none ∧ received evs = rest ∧ p'.Waiting D

theorem Peer.Drains.step {ev : Event} {rest : Bytes} (h : p'.Drains cfg D rest)
    (hstep : p.step cfg D ev = some p') : p.Drains cfg D (ev.data ++ rest) := by
  obtain ⟨evs, p₁, hrun, hok, hrest, hw⟩ := h
  refine ⟨ev :: evs, p₁, ?_, hok, ?_, hw⟩
  · simp only [Peer.run, hstep, Option.bind_some, hrun]
  · simp only [received, List.flatMap_cons] at hrest ⊢
    rw [hrest]

/-- A round of `fill` in which everything arrives at once. -/
def ReadPoll.deliver (data : Bytes) : ReadPoll := ⟨0, 0, 0, none, data, none, false, 0⟩

theorem Peer.step_deliver {m : Nat} {data : Bytes} (hcall : p.call = some m)
    (hwaits : (D.next p.dec m).waits = true) (hnil : p.reader.pending = []) (hne : data ≠ []) :
    ∃ r, p.step cfg D (.poll (.deliver data)) = some { p with reader := r } := by
  have hempty := p.reader.pending_eq_nil.mp hnil
  have hfill : p.reader.fillRound cfg (.deliver data) =
      p.reader.readRound cfg (.deliver data) := rfl
  obtain ⟨r, hr⟩ : ∃ r, p.reader.readRound cfg (.deliver data) = .filled r := ⟨_, if_pos hne⟩
  refine ⟨r, ?_⟩
  simp only [Peer.step, hcall, hwaits, if_true, Peer.poll, hempty, hfill, hr]

theorem Peer.step_read {m n : Nat} (cfg : Cfg) (hcall : p.call = some m)
    (hnext : D.next p.dec m = .read n) (hne : p.reader.pending ≠ []) (now : Int) :
    p.step cfg D (.go now) = some { p with
      reader := (p.reader.read n now).2, dec := D.fed p.dec m (p.reader.read n now).1 } := by
  have hlt := mt p.reader.pending_eq_nil.mpr hne
  simp only [Peer.step, hcall, Peer.go, hnext, if_neg hlt]

theorem Peer.step_byte {m : Nat} (cfg : Cfg) (hcall : p.call = some m)
    (hnext : D.next p.dec m = .byte) (hne : p.reader.pending ≠ []) (now : Int) :
    ∃ b r, p.step cfg D (.go now) = some { p with reader := r, dec := D.fed p.dec m [b] } ∧
      b :: r.pending = p.reader.pending := by
  obtain ⟨b, l, hl⟩ := List.exists_cons_of_ne_nil hne
  have hbyte : p.reader.readByte now = some (b, (p.reader.advance 1).markDelivery now) := by
    simp only [PollingReader.readByte, hl, List.head?_cons, Option.map_some]
  refine ⟨b, _, ?_, PollingReader.readByte_spec hbyte⟩
  simp only [Peer.step, hcall, Peer.go, hnext, hbyte]

theorem Peer.step_give {m : Nat} {out : Bytes} (cfg : Cfg) (hcall : p.call = some m)
    (hnext : D.next p.dec m = .give out) (now : Int) :
    p.step cfg D (.go now) = some (p.give D m out) := by
  simp only [Peer.step, hcall, Peer.go, hnext]

theorem Peer.step_recv (cfg : Cfg) (hcall : p.call = none) (hok : p.failed = none) (m : Nat) :
    p.step cfg D (.recv m) = some { p with call := some m } := by
  simp only [Peer.step, hcall, hok, and_self, if_true]

/-- One peer has less to read from its buffer than the other, or less to return, or a decoder
that has less idling to do. -/
def Peer.Nearer (D : Decoder UInt8 δ) (size : Nat) : Peer δ → Peer δ → Prop :=
  InvImage (Prod.Lex (· < ·) (Prod.Lex (· < ·) D.Idle))
    fun p => (p.reader.pending.length, size - p.out.flatten.length, p.dec)

theorem Peer.nearer_wf (hlive : WellFounded D.Idle) (size : Nat) :
    WellFounded (Peer.Nearer D size) :=
  InvImage.wf _ (Prod.lex ⟨(· < · : Nat → Nat → Prop), wellFounded_lt⟩
    (Prod.lex ⟨(· < · : Nat → Nat → Prop), wellFounded_lt⟩ ⟨D.Idle, hlive⟩)).wf

theorem Peer.nearer_of_pending {size : Nat} {p' : Peer δ}
    (h : p'.reader.pending.length < p.reader.pending.length) : Peer.Nearer D size p' p :=
  Prod.Lex.left _ _ h

/-- Returning a chunk brings the peer nearer, also when the chunk is empty. -/
theorem Peer.nearer_give {m size : Nat} {out : Bytes} (hm : 0 < m)
    (hnext : D.next p.dec m = .give out) (hle : (p.out ++ [out]).flatten.length ≤ size) :
    Peer.Nearer D size { p.give D m out with call := some m } p := by
  show Prod.Lex _ _ ((p.give D m out).reader.pending.length, _) _
  rw [pending_give]
  refine Prod.Lex.right _ ?_
  by_cases hnil : out = []
  · subst hnil
    have hsame : (p.out ++ [[]]).flatten = p.out.flatten := by simp
    show Prod.Lex _ _ (_ - (p.out ++ [[]]).flatten.length, _) _
    rw [hsame]
    exact Prod.Lex.right _ ⟨m, hm, Or.inl ⟨hnext, rfl⟩⟩
  · have hpos := List.length_pos_iff.mpr hnil
    refine Prod.Lex.left _ _ ?_
    simp only [Peer.give, List.flatten_append, List.flatten_singleton,
      List.length_append] at hle ⊢
    omega

/-- A peer that does not wait for bytes can go on without any, and gets nearer to waiting. -/
theorem Peer.progress (hT : Transparent E D) (cfg : Cfg) {m : Nat} (hm : 0 < m)
    (h : p.Delivered D got) (hgot : got <+: E.output blocks) (hok : p.failed = none)
    (hcall : p.call = some m) (hw : ¬ ((D.next p.dec m).waits = true ∧ p.reader.pending = [])) :
    ∃ p' : Peer δ, Peer.Nearer D blocks.flatten.flatten.length p' p ∧ p'.Delivered D got ∧
      p'.failed = none ∧ p'.call = some m ∧
      ∀ rest, p'.Drains cfg D rest → p.Drains cfg D rest := by
  cases hnext : D.next p.dec m with
  | give out =>
      have hgo := step_give cfg hcall hnext 0
      have hrecv := step_recv (D := D) (p := p.give D m out) cfg rfl hok m
      have hd := step_delivered (step_delivered h hgo hok) hrecv hok
      simp only [Event.data, List.append_nil] at hd
      have hle := (hd.sound hT hgot).length_le
      exact ⟨_, nearer_give hm hnext hle, hd, hok, rfl, fun _ hrest => (hrest.step hrecv).step hgo⟩
  | read n =>
      have hne : p.reader.pending ≠ [] := fun hnil => hw ⟨by rw [hnext]; rfl, hnil⟩
      have hstep := step_read cfg hcall hnext hne 0
      have hd := step_delivered h hstep hok
      simp only [Event.data, List.append_nil] at hd
      refine ⟨_, ?_, hd, hok, hcall, fun _ hrest => hrest.step hstep⟩
      cases n with
      | zero => exact Prod.Lex.right _ (Prod.Lex.right _ ⟨m, hm, Or.inr ⟨hnext, rfl⟩⟩)
      | succ n =>
          have hpos := List.length_pos_iff.mpr hne
          apply nearer_of_pending
          simp only [PollingReader.read, PollingReader.pending_markDelivery,
            PollingReader.pending_advance, List.length_drop]
          omega
  | byte =>
      have hne : p.reader.pending ≠ [] := fun hnil => hw ⟨by rw [hnext]; rfl, hnil⟩
      obtain ⟨b, r, hstep, hr⟩ := step_byte cfg hcall hnext hne 0
      have hd := step_delivered h hstep hok
      simp only [Event.data, List.append_nil] at hd
      refine ⟨_, ?_, hd, hok, hcall, fun _ hrest => hrest.step hstep⟩
      apply nearer_of_pending
      rw [← hr, List.length_cons]
      exact Nat.lt_succ_self _

/-- **The stream drains.**  While nothing fails, `recv` calls with a buffer of any size
`m` get through the rest of the wire. -/
theorem Peer.drains (hT : Transparent E D) (cfg : Cfg) {m : Nat} (hm : 0 < m) {rest : Bytes}
    (h : p.Delivered D got) (hgot : got ++ rest = E.output blocks) (hok : p.failed = none)
    (hcall : p.call = some m) : p.Drains cfg D rest := by
  have hwf : WellFounded (Prod.Lex (· < ·) (Peer.Nearer D blocks.flatten.flatten.length)) :=
    (Prod.lex ⟨(· < · : Nat → Nat → Prop), wellFounded_lt⟩ ⟨_, nearer_wf hT.live _⟩).wf
  -- on what has not arrived yet, and then on how near the peer is to waiting for it
  induction hx : (rest.length, p) using hwf.induction generalizing p got rest with
  | _ x ih =>
      subst hx
      by_cases hw : (D.next p.dec m).waits = true ∧ p.reader.pending = []
      · obtain ⟨hwaits, hnil⟩ := hw
        by_cases hrest : rest = []
        · subst hrest
          exact ⟨[], p, rfl, hok, rfl, hnil, m, hcall, hwaits⟩
        · obtain ⟨r, hstep⟩ := step_deliver hcall hwaits hnil hrest
          have hd : Peer.Delivered D (got ++ rest) { p with reader := r } :=
            step_delivered h hstep hok
          have hdrains : Peer.Drains cfg D { p with reader := r } [] :=
            ih _ (Prod.Lex.left _ _ (List.length_pos_iff.mpr hrest)) hd
              (by rw [List.append_nil, hgot]) hok hcall rfl
          simpa [Event.data, ReadPoll.deliver] using hdrains.step hstep
      · obtain ⟨p', hnear, hd, hok', hcall', hdrains⟩ :=
          progress hT cfg hm h (hgot ▸ List.prefix_append got rest) hok hcall hw
        exact hdrains rest (ih _ (Prod.Lex.right _ hnear) hd hgot hok' hcall' rfl)

/-! ## From end to end -/

/-- The payloads of the `Send` calls of a connection, in the order of its lock. -/
def payload (s : CodecConn.Shared κ) : Bytes :=
  (s.results.map fun r => r.arg.packages.flatten).flatten

/-- **The writing side.**  As long as every `Send` succeeds and `CloseConn` is not called,
the wire carries the codec's output whenever nobody is writing. -/
theorem wire_eq_output {s : CodecConn.Shared κ} (hinv : CodecConn.Inv E s)
    (hfree : s.lock = false) (hopen : s.closeOnce = .fresh)
    (hok : ∀ r ∈ s.results, r.err = none) :
    s.wire = E.output (s.results.map fun r => r.arg.packages) := by
  have hlatched : s.latched = none := by
    by_contra hne
    rcases hinv.blame hfree (Option.isSome_iff_ne_none.mpr hne) with honce | ⟨r, hr, herr⟩
    · exact honce hopen
    · exact herr (hok r hr)
  have hsent : s.sent = s.results.map fun r => r.arg.packages := by
    refine (List.filterMap_congr fun r hr => ?_).trans (congrFun List.filterMap_eq_map _)
    simp [CodecConn.Result.sent, hok r hr]
  obtain ⟨hrest, hlog⟩ := hinv.settled hfree hlatched
  have hout := hinv.output
  rw [hrest, List.append_nil, hlog, hsent] at hout
  exact hout

/-- **A codec stream is transparent from end to end.**  Let `c` be any state of the sending
connection in which every `Send` so far has succeeded, nobody is writing and `CloseConn` has
not been called, and let the receiving connection go through any events that bring bytes of
its wire and in which no timeout or error gets through to the decoder.  What `recv` has
returned is the beginning of what was sent; it is all of it when the whole wire has arrived
and `recv` waits for more; and `recv` calls with a buffer of any size can get there. -/
theorem codec_stream_transparent (E : Encoder UInt8 κ) (D : Decoder UInt8 δ)
    (hT : Transparent E D) (cfg : Cfg) {c : Conf (CodecConn.Shared κ) CodecConn.Thread}
    (hc : (CodecConn.prog cfg E).Reaches (CodecConn.initial E) c)
    (hfree : c.shared.lock = false) (hopen : c.shared.closeOnce = .fresh)
    (hsent : ∀ r ∈ c.shared.results, r.err = none) (cfg' : Cfg) {evs : List Event} {p : Peer δ}
    (hrun : (Peer.init D).run cfg' D evs = some p) (hok : p.failed = none) {rest : Bytes}
    (hwire : received evs ++ rest = c.shared.wire) :
    p.out.flatten <+: payload c.shared ∧
    (rest = [] → p.Waiting D → p.out.flatten = payload c.shared) ∧
    ∀ m, 0 < m → p.call = none ∨ p.call = some m → ∃ evs' p', p.run cfg' D evs' = some p' ∧
      received evs' = rest ∧ p'.Waiting D ∧ p'.out.flatten = payload c.shared := by
  have hout := wire_eq_output (CodecConn.holds_reaches hc).shared hfree hopen hsent
  have hpayload : (c.shared.results.map fun r => r.arg.packages).flatten.flatten =
      payload c.shared := by
    rw [payload, List.flatten_flatten, List.map_map]
    rfl
  rw [hout] at hwire
  have hd : p.Delivered D (received evs) := by
    simpa using Peer.run_delivered (Peer.delivered_init D) hrun hok
  rw [← hpayload]
  refine ⟨hd.sound hT ⟨rest, hwire⟩, ?_, ?_⟩
  · intro hrest hw
    rw [hrest, List.append_nil] at hwire
    rw [hwire] at hd
    exact hd.complete hT hw
  · intro m hm hcall
    have hdrains : p.Drains cfg' D rest := by
      rcases hcall with hnone | hsome
      · have hrecv := Peer.step_recv (D := D) cfg' hnone hok m
        have hd' := Peer.step_delivered hd hrecv hok
        simp only [Event.data, List.append_nil] at hd'
        exact (Peer.drains hT cfg' hm hd' hwire hok rfl).step hrecv
      · exact Peer.drains hT cfg' hm hd hwire hok hsome
    obtain ⟨evs', p', hrun', hok', hrest, hw⟩ := hdrains
    refine ⟨evs', p', hrun', hrest, hw, ?_⟩
    have hall := Peer.run_delivered hd hrun' hok'
    rw [hrest, hwire] at hall
    exact hall.complete hT hw

/-- A `Send` of two bytes that needs two rounds on the socket, with a timeout between them,
and a `Send` of a batch. -/
def sendRun : List (Move CodecConn.Thread) :=
  [.start (.send (.bytes [1, 2]) false
      [⟨0, 1, none, 1, some .timeout, 0, 0⟩, ⟨0, 1, none, 1, none, 0, 0⟩] .check)] ++
    List.replicate 11 (.fire 0 0) ++
    [.start (.send (.buffers [[3], [4, 5]]) false
      [⟨0, 1, none, 1, none, 0, 0⟩, ⟨0, 1, none, 2, none, 0, 0⟩] .check)] ++
    List.replicate 13 (.fire 1 0)

/-- The wire arrives in two pieces after a timeout, and `recv` is called with buffers of
different sizes. -/
def recvRun : List Event :=
  [.recv 2, .poll ⟨1, 0, 0, none, [], some .timeout, false, 0⟩,
    .poll ⟨1, 0, 0, none, [1, 2, 3], none, false, 0⟩, .go 0, .go 0, .recv 1, .go 0, .go 0]

/-- Two of the five bytes have been returned, and the others can be had. -/
theorem codec_stream_transparent_batch :
    ∃ c p, (CodecConn.prog ⟨1⟩ stored).run (CodecConn.initial stored) sendRun = some c ∧
      payload c.shared = [1, 2, 3, 4, 5] ∧ (Peer.init unstored).run ⟨1⟩ unstored recvRun = some p ∧
      p.out = [[1], [2]] ∧ ∃ evs' p', p.run ⟨1⟩ unstored evs' = some p' ∧
        received evs' = [4, 5] ∧ p'.out.flatten = [1, 2, 3, 4, 5] := by
  refine ⟨_, _, rfl, rfl, rfl, rfl, ?_⟩
  have hmain := codec_stream_transparent stored unstored .stored ⟨1⟩ ⟨sendRun, rfl⟩ rfl rfl
    (by decide) ⟨1⟩ (show (Peer.init unstored).run ⟨1⟩ unstored recvRun = some _ from rfl) rfl
    (show received recvRun ++ [4, 5] = _ from rfl)
  obtain ⟨evs', p', hrun, hrest, -, hout⟩ := hmain.2.2 1 Nat.one_pos (Or.inl rfl)
  exact ⟨evs', p', hrun, hrest, hout⟩

end Getty.Transport.CodecStream
