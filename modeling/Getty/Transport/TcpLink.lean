import Getty.Transport.TcpChannel

/-!
# One direction of a session, as a state machine

`tcp_channel` speaks of calls that are all there from the start and of one run of the
receive loop.  Here both go on together: calls come while others write, and the receive
loop reads what has been written so far.  A larger system, such as a client and a server
that answers it, is made of two such links.

The state of the receive loop depends only on the bytes that have arrived, so it does not
matter that the calls still to come are unknown at the time; this is `Split.of_isPrefix`.

## Main results

* `sound_call`, `sound_write`, `sound_recv` — every event keeps the link sound.
* `Link.Sound.dispatched` — what has been dispatched, at any time and in the end.
-/

namespace Getty.Transport.Channel

open Getty.Verified Getty.Verified.Packets Getty.Verified.ThreadPool
open Getty.Transport.Tcp

variable {P : Type}

/-- The calls made so far, the writers, the bytes that have arrived, and the receive loop. -/
structure Link (P : Type) where
  requests : List (Request P)
  conf : Conf WriteStream.Shared WriteStream.Thread
  got : Bytes
  loop : Outcome P

def Link.init : Link P := ⟨[], ⟨WriteStream.Shared.init, []⟩, [], .blocked State.init⟩

/-- The packages the receive loop has dispatched. -/
def Link.messages (l : Link P) : List P :=
  match l.loop with
  | .returned _ messages => messages
  | .panicked messages => messages
  | .blocked st => st.messages
  | .decoding => []

/-- A write call is made. -/
def Link.call (fmt : ReadWriter P) (l : Link P) (q : Request P) : Link P :=
  { l with
    requests := l.requests ++ [q]
    conf := ⟨l.conf.shared, l.conf.pool ++ [.start (q.call fmt.write)]⟩ }

/-- A write call takes a step. -/
def Link.write (cfg : WriteStream.Cfg) (l : Link P) (i j : Nat) : Option (Link P) :=
  match (WriteStream.prog cfg).exec l.conf (.fire i j) with
  | some conf => some { l with conf := conf }
  | none => none

/-- The bytes that are on their way. -/
def Link.pending (l : Link P) : Bytes := l.conf.shared.stream.drop l.got.length

/-- The result of `recv` when it gets at most `n` bytes, or the result of a timeout. -/
def Link.chunk (l : Link P) : Option Nat → RecvResult
  | some n => ⟨l.pending.take n, none⟩
  | none => ⟨[], some .timeout⟩

/-- The receive loop takes a turn.  It decodes at most as often as it has got bytes. -/
def Link.recv (fmt : ReadWriter P) (maxMsgLen : Int) (l : Link P) (n : Option Nat) :
    Option (Link P) :=
  match l.loop with
  | .blocked st =>
      let got := l.got ++ (l.chunk n).data
      some { l with
        got := got
        loop := Tcp.loop (fmt.env maxMsgLen) got.length [⟨false, l.chunk n⟩] st }
  | _ => none

/-! ## The invariant -/

/-- What holds of a link all the time. -/
structure Link.Sound (fmt : ReadWriter P) (maxMsgLen : Int) (cfg : WriteStream.Cfg)
    (l : Link P) : Prop where
  run : (WriteStream.prog cfg).Reaches (writers fmt l.requests) l.conf
  fits : ∀ q ∈ l.requests, ∀ p ∈ q.packages, fmt.Fits maxMsgLen p
  got : l.got <+: l.conf.shared.stream
  received : ∃ st ps, l.loop = .blocked st ∧ (∀ p ∈ ps, fmt.ok p) ∧
    l.got <+: wire fmt.write ps ∧ Received fmt ps l.got st

section Invariant

variable {fmt : ReadWriter P} {maxMsgLen : Int} {cfg : WriteStream.Cfg} {l : Link P}

/-- The state of the receive loop in terms of the packages of the calls made so far. -/
theorem Link.Sound.current (h : l.Sound fmt maxMsgLen cfg) :
    ∃ st ps, l.loop = .blocked st ∧ Shuffle (l.requests.map Request.packages) ps ∧
      (∀ p ∈ ps, fmt.Fits maxMsgLen p) ∧ l.conf.shared.stream <+: wire fmt.write ps ∧
      (l.conf.pool = [] → l.conf.shared.stream = wire fmt.write ps) ∧ Received fmt ps l.got st := by
  obtain ⟨ps, hps, hpre, hall⟩ :=
    stream_is_packages fmt cfg (fun q hq p hp => (h.fits q hq p hp).1) h.run
  obtain ⟨st, qs, hloop, hok, hgot, hrec⟩ := h.received
  have hfits := fits_of_shuffle fmt maxMsgLen h.fits hps
  exact ⟨st, ps, hloop, hps, hfits, hpre, hall, ⟨hrec.running,
    hrec.split.of_isPrefix fmt.selfDelimiting hok (fun p hp => (hfits p hp).1) hgot
      (h.got.trans hpre)⟩⟩

theorem sound_init : (Link.init : Link P).Sound fmt maxMsgLen cfg where
  run := ⟨[], rfl⟩
  fits := List.forall_mem_nil _
  got := List.nil_prefix
  received := ⟨State.init, [], rfl, List.forall_mem_nil _, List.nil_prefix,
    received_init fmt maxMsgLen [] (List.forall_mem_nil _)⟩

/-- A new call waits in the pool, as if it had been there from the start. -/
theorem sound_call (h : l.Sound fmt maxMsgLen cfg) {q : Request P}
    (hq : ∀ p ∈ q.packages, fmt.Fits maxMsgLen p) : (l.call fmt q).Sound fmt maxMsgLen cfg where
  run := by
    have hclosed : Closed (WriteStream.prog cfg) := fun _ _ => rfl
    have := hclosed.reaches_append h.run [.start (q.call fmt.write)]
    simpa [Link.call, writers, WriteStream.initial] using this
  fits := by
    intro q' hq'
    rcases List.mem_append.mp hq' with hq' | hq'
    · exact h.fits q' hq'
    · rw [List.mem_singleton.mp hq']
      exact hq
  got := h.got
  received := h.received

theorem sound_write (h : l.Sound fmt maxMsgLen cfg) {l' : Link P} {i j : Nat}
    (hw : l.write cfg i j = some l') : l'.Sound fmt maxMsgLen cfg := by
  simp only [Link.write] at hw
  cases hexec : (WriteStream.prog cfg).exec l.conf (.fire i j) with
  | none => simp [hexec] at hw
  | some conf =>
      rw [hexec] at hw
      cases hw
      exact ⟨h.run.snoc hexec, h.fits, h.got.trans (WriteStream.stream_grows hexec), h.received⟩

private theorem chunk_data_isPrefix (h : l.got <+: l.conf.shared.stream) (n : Option Nat) :
    l.got ++ (l.chunk n).data <+: l.conf.shared.stream := by
  obtain ⟨rest, hrest⟩ := h
  cases n with
  | none => simpa [Link.chunk] using ⟨rest, hrest⟩
  | some n =>
      have hpending : l.pending = rest := by
        rw [Link.pending, ← hrest, List.drop_left]
      rw [← hrest, List.prefix_append_right_inj, Link.chunk, hpending]
      exact List.take_prefix n rest

private theorem arrives_chunk (l : Link P) (n : Option Nat) :
    Arrives (l.chunk n).data [⟨false, l.chunk n⟩] := by
  cases n with
  | none => exact .timeout .nil
  | some n => simpa [Link.chunk] using Arrives.bytes (l.pending.take n) .nil

/-- The receive loop always takes its turn, and dispatches what has become complete. -/
theorem sound_recv (h : l.Sound fmt maxMsgLen cfg) (n : Option Nat) :
    ∃ l', l.recv fmt maxMsgLen n = some l' ∧ l'.Sound fmt maxMsgLen cfg ∧
      l'.requests = l.requests ∧ l'.conf = l.conf ∧ l'.got = l.got ++ (l.chunk n).data ∧
      l.messages <+: l'.messages := by
  obtain ⟨st, ps, hloop, hps, hfits, hpre, hall, hrec⟩ := h.current
  have hgot := chunk_data_isPrefix h.got n
  obtain ⟨st', hrun, hrec', hmsg⟩ := loop_receives fmt maxMsgLen (arrives_chunk l n) hfits
    (l.got ++ (l.chunk n).data).length l.got st hrec (hgot.trans hpre)
    (by rw [List.length_append])
  refine ⟨{ l with got := l.got ++ (l.chunk n).data, loop := .blocked st' }, ?_,
    ⟨h.run, h.fits, hgot, st', ps, rfl, fun p hp => (hfits p hp).1, hgot.trans hpre, hrec'⟩,
    rfl, rfl, rfl, ?_⟩
  · simp only [Link.recv, hloop, hrun]
  · simpa [Link.messages, hloop] using hmsg

/-- **What has been dispatched.**  Packages of the calls, each at most once; and all of
them once the calls have returned and their bytes have arrived. -/
theorem Link.Sound.dispatched (h : l.Sound fmt maxMsgLen cfg) :
    l.messages.Subperm (l.requests.flatMap Request.packages) ∧
      (l.conf.pool = [] → l.got = l.conf.shared.stream →
        l.messages.Perm (l.requests.flatMap Request.packages)) := by
  obtain ⟨st, ps, hloop, hps, hfits, hpre, hall, hrec⟩ := h.current
  have hperm : ps.Perm (l.requests.flatMap Request.packages) := by
    rw [List.flatMap_def]
    exact hps.perm
  have hmsg : l.messages = st.messages := by rw [Link.messages, hloop]
  rw [hmsg]
  constructor
  · exact hrec.split.isPrefix.sublist.subperm.trans hperm.subperm
  · intro hdone heq
    rw [(hrec.split.complete (heq.trans (hall hdone))).1]
    exact hperm

/-- All calls can return, whatever has happened. -/
theorem Link.Sound.completes (h : l.Sound fmt maxMsgLen cfg) :
    ∃ d, (WriteStream.prog cfg).Reaches l.conf d ∧ d.pool = [] :=
  WriteStream.completes_of_holds
    ((WriteStream.locks_valid cfg).holds_run (WriteStream.locks_initial cfg _) h.run)

end Invariant

end Getty.Transport.Channel
