import Getty.Verified.Packets
import Getty.Transport.TcpFraming
import Getty.Transport.PackageStream
import Getty.Transport.CodecStream

/-!
# A TCP session from writers to listener

Both ends of a byte stream session put together: concurrent `WritePkg`, `WriteBytes`,
`WriteBytesArray` and `Send` calls on one side, `handleTCPPackage` on the other, with the
connection delivering the stream in pieces of any size.  The application's `ReadWriter`
provides the encoding: `Reader.Read` gives back what `Writer.Write` has encoded, and asks
for more when it gets a beginning of it.  Nothing is assumed of data that no `Writer` has
produced, so the decoder may be lazier or stricter there than the frame decoders of
`TcpFraming`.

No write fails: a partial write, after a timeout, tears the stream.

The sender's half is `packages_never_torn`: the stream is a sequence of whole packages.
The receiver's half is `loop_receives`: whatever the cut, the loop has dispatched the
packages that have completely arrived, and keeps the beginning of the next one.

## Main results

* `decode_packages` — one decode loop dispatches the complete packages of the buffer.
* `loop_receives` — so does the receive loop, over the whole stream.
* `tcp_channel` — the packages of the calls arrive whole, once, and in order.
* `tcp_channel_batches` — batches arrive in one piece where they are sent in one piece.
-/

namespace Getty.Transport.Channel

open Getty.Verified Getty.Verified.Packets Getty.Verified.ThreadPool
open Getty.Transport.Tcp

variable {P : Type}

/-! ## The application's `ReadWriter` -/

/-- `Writer.Write` and `Reader.Read` of an application, for the packages it writes. -/
structure ReadWriter (P : Type) where
  write : P → Bytes
  read : Bytes → ReadResult P
  ok : P → Prop
  write_ne_nil : ∀ p, ok p → write p ≠ []
  /-- A complete package at the front of the data is decoded. -/
  complete : ∀ p data, ok p → write p <+: data → read data = ⟨some p, (write p).length, none⟩
  /-- The beginning of a package is not enough, whether or not its length is known. -/
  pending : ∀ p data, ok p → data ≠ [] → data <+: write p → data.length < (write p).length →
    read data = ⟨none, 0, none⟩ ∨ read data = ⟨none, (write p).length, none⟩

/-- The session of a `ReadWriter` that stays open, with a fixed limit. -/
def ReadWriter.env (fmt : ReadWriter P) (maxMsgLen : Int) : Env P where
  read _ data := fmt.read data
  maxMsgLen _ := maxMsgLen
  taskOpen _ := true

/-- The package may be written, and its encoding is within the receiver's limit. -/
def ReadWriter.Fits (fmt : ReadWriter P) (maxMsgLen : Int) (p : P) : Prop :=
  fmt.ok p ∧ Legal maxMsgLen (fmt.write p)

theorem ReadWriter.selfDelimiting (fmt : ReadWriter P) : SelfDelimiting fmt.write fmt.ok where
  ne_nil := fmt.write_ne_nil
  prefixFree p q hp hq h := by
    have h1 := fmt.complete p (fmt.write q) hp h
    have h2 := fmt.complete q (fmt.write q) hq (List.prefix_refl _)
    rw [h1] at h2
    simp only [ReadResult.mk.injEq, Option.some.injEq] at h2
    exact h2.1

/-! ## The receiver -/

section Receiver

variable (fmt : ReadWriter P) (maxMsgLen : Int)

private theorem check_complete {p : P} (hp : fmt.Fits maxMsgLen p) (bufLen : Nat) :
    checkPackage maxMsgLen (⟨some p, (fmt.write p).length, none⟩ : ReadResult P) bufLen = none := by
  have hlegal := hp.2
  simp only [Legal] at hlegal
  simp only [checkPackage, Option.isNone_some, Bool.false_eq_true, false_and, if_false]
  split
  · rw [if_neg (by omega)]
  · rfl

private theorem check_pending {p : P} {buf : Bytes} (hp : fmt.Fits maxMsgLen p)
    (hlt : buf.length < (fmt.write p).length) {r : ReadResult P}
    (hr : r = ⟨none, 0, none⟩ ∨ r = ⟨none, (fmt.write p).length, none⟩) :
    checkPackage maxMsgLen r buf.length = none ∧ r.pkg = none := by
  have hlegal := hp.2
  simp only [Legal] at hlegal
  rcases hr with rfl | rfl
  · refine ⟨?_, rfl⟩
    simp only [checkPackage]
    split
    · rw [if_neg (by omega), if_neg (by omega)]
    · rfl
  · refine ⟨?_, rfl⟩
    simp only [checkPackage]
    split
    · rw [if_neg (by omega), if_neg (by omega)]
    · rfl

/-- **One decode loop** dispatches the complete packages of the buffer, and keeps the
beginning of the next one. -/
theorem decode_packages (fuel : Nat) (st : State P) (ps : List P) (more : Bytes)
    (hps : ∀ p ∈ ps, fmt.Fits maxMsgLen p) (hbuf : st.pktBuf ++ more = wire fmt.write ps)
    (hfuel : st.pktBuf.length ≤ fuel) :
    ∃ done st', decode (fmt.env maxMsgLen) fuel st = .ok st' ∧
      Split fmt.write ps st.pktBuf done st'.pktBuf ∧ st'.messages = st.messages ++ done ∧
      st'.exit = st.exit := by
  induction ps generalizing fuel st with
  | nil =>
      have hnil : st.pktBuf = [] := (List.append_eq_nil_iff.mp hbuf).1
      exact ⟨[], st, decode_nil _ _ st hnil, ⟨rfl, [], rfl, by simp⟩, by simp, rfl⟩
  | cons p ps ih =>
      have hp := hps p (List.mem_cons_self ..)
      by_cases hnil : st.pktBuf = []
      · refine ⟨[], st, decode_nil _ _ st hnil, ⟨rfl, p :: ps, rfl, ?_⟩, by simp, rfl⟩
        rintro q rest heq
        cases heq
        rw [hnil]
        exact List.length_pos_of_ne_nil (fmt.write_ne_nil p hp.1)
      · have hpos := List.length_pos_of_ne_nil hnil
        obtain ⟨k, rfl⟩ : ∃ k, fuel = k + 1 := ⟨fuel - 1, by omega⟩
        rw [decode, if_neg hnil]
        rcases front_cases fmt.write hbuf with ⟨rest, hfront, hrest⟩ | ⟨hpre, hlt⟩
        · -- the next package is complete
          have hread : fmt.read st.pktBuf = ⟨some p, (fmt.write p).length, none⟩ :=
            fmt.complete p _ hp.1 ⟨rest, hfront.symm⟩
          have hnext : next ((fmt.write p).length : Int) st.pktBuf = some rest := by
            simp [next, hfront]
          have hlen := List.length_pos_of_ne_nil (fmt.write_ne_nil p hp.1)
          obtain ⟨done, st', hdec, hsplit, hmsg, hexit⟩ := ih k
            { st with
              err := none, pktBuf := rest, reads := st.reads + 1
              messages := st.messages ++ [p] }
            (fun q hq => hps q (List.mem_cons_of_mem p hq)) hrest (by
              rw [hfront, List.length_append] at hfuel
              dsimp only
              omega)
          refine ⟨p :: done, st', ?_, ⟨?_, ?_⟩, by simpa using hmsg, hexit⟩
          · simp only [ReadWriter.env, hread, check_complete fmt maxMsgLen hp, hnext, addTask,
              if_true]
            exact hdec
          · rw [hfront, wire_cons, List.append_assoc, ← hsplit.bytes]
          · obtain ⟨todo, rfl, htodo⟩ := hsplit.todo
            exact ⟨todo, rfl, htodo⟩
        · -- the buffer holds a beginning of it
          obtain ⟨hcheck, hpkg⟩ :=
            check_pending fmt maxMsgLen hp hlt (fmt.pending p _ hp.1 hnil hpre hlt)
          refine ⟨[], { st with err := none, reads := st.reads + 1 }, ?_,
            ⟨rfl, p :: ps, rfl, ?_⟩, by simp, rfl⟩
          · simp only [ReadWriter.env, hcheck, hpkg]
          · rintro q rest heq
            cases heq
            exact hlt

/-- The rounds of a session that stays open, while the connection delivers `got`: reads
with any number of bytes, and timeouts. -/
inductive Arrives : Bytes → List Round → Prop where
  | nil : Arrives [] []
  | timeout {got : Bytes} {rounds : List Round} (h : Arrives got rounds) :
      Arrives got (⟨false, [], some .timeout⟩ :: rounds)
  | bytes {got : Bytes} {rounds : List Round} (c : Bytes) (h : Arrives got rounds) :
      Arrives (c ++ got) (⟨false, c, none⟩ :: rounds)

/-- The loop has received the bytes `s`: it has dispatched the packages that are complete,
and keeps the beginning of the next one. -/
structure Received (ps : List P) (s : Bytes) (st : State P) : Prop where
  running : st.exit = false
  split : Split fmt.write ps s st.messages st.pktBuf

theorem received_init (ps : List P) (hps : ∀ p ∈ ps, fmt.Fits maxMsgLen p) :
    Received fmt ps [] State.init where
  running := rfl
  split := by
    refine ⟨rfl, ps, rfl, ?_⟩
    rintro p rest rfl
    exact List.length_pos_of_ne_nil (fmt.write_ne_nil p (hps p (List.mem_cons_self ..)).1)

/-- **Step lemma.**  A read that brings bytes. -/
theorem recvRound_receives {ps : List P} {s c more : Bytes} {st : State P} (e : Option RecvErr)
    (fuel : Nat) (hps : ∀ p ∈ ps, fmt.Fits maxMsgLen p) (hst : Received fmt ps s st) (hne : c ≠ [])
    (hs : s ++ c ++ more = wire fmt.write ps) (hfuel : s.length + c.length ≤ fuel) :
    ∃ st', recvRound (fmt.env maxMsgLen) fuel ⟨c, e⟩ st = .ok st' ∧
      Split fmt.write ps (s ++ c) st'.messages st'.pktBuf ∧
      st.messages <+: st'.messages ∧ st'.exit = (st.afterRecv e).exit := by
  obtain ⟨todo, rfl, -⟩ := hst.split.todo
  have hbytes := hst.split.bytes
  have hbuf : st.pktBuf ++ c ++ more = wire fmt.write todo := by
    rw [hbytes, wire_append, List.append_assoc, List.append_assoc] at hs
    rw [List.append_assoc]
    exact List.append_cancel_left hs
  have hlen : st.pktBuf.length ≤ s.length := by
    rw [hbytes, List.length_append]
    omega
  obtain ⟨done, st', hdec, hsplit, hmsg, hexit⟩ := decode_packages fmt maxMsgLen fuel
    ((st.afterRecv e).buffer c) todo more (fun p hp => hps p (List.mem_append_right _ hp))
    (by simpa using hbuf) (by simp; omega)
  simp only [buffer_pktBuf, afterRecv_pktBuf, buffer_messages, afterRecv_messages,
    buffer_exit] at hsplit hmsg hexit
  refine ⟨st', ?_, ⟨?_, ?_⟩, ⟨done, hmsg.symm⟩, hexit⟩
  · simp only [recvRound, hne, if_false]
    exact hdec
  · rw [hbytes, hmsg, wire_append, List.append_assoc, hsplit.bytes, List.append_assoc]
  · obtain ⟨todo', rfl, htodo⟩ := hsplit.todo
    exact ⟨todo', by rw [hmsg, List.append_assoc], htodo⟩

/-- **Run lemma.**  Whatever the cut, the loop receives what arrives. -/
theorem loop_receives {got : Bytes} {rounds : List Round} (harr : Arrives got rounds)
    {ps : List P} (hps : ∀ p ∈ ps, fmt.Fits maxMsgLen p) (fuel : Nat) (s : Bytes) (st : State P)
    (hst : Received fmt ps s st) (hpre : s ++ got <+: wire fmt.write ps)
    (hfuel : s.length + got.length ≤ fuel) :
    ∃ st', loop (fmt.env maxMsgLen) fuel rounds st = .blocked st' ∧
      Received fmt ps (s ++ got) st' ∧ st.messages <+: st'.messages := by
  induction harr generalizing s st with
  | nil => exact ⟨st, rfl, by simpa using hst, List.prefix_refl _⟩
  | timeout _ ih =>
      obtain ⟨st', hrun, hrec⟩ := ih s (st.afterRecv (some .timeout)) ⟨hst.running, hst.split⟩
        hpre hfuel
      have hx : (st.afterRecv (some .timeout)).exit = false := hst.running
      refine ⟨st', ?_, hrec⟩
      simpa [loop, recvRound, hx] using hrun
  | @bytes got rounds c _ ih =>
      rw [List.length_append] at hfuel
      rw [← List.append_assoc] at hpre ⊢
      by_cases hc : c = []
      · subst hc
        rw [List.append_nil] at hpre ⊢
        obtain ⟨st', hrun, hrec⟩ := ih s (st.afterRecv none) ⟨hst.running, hst.split⟩ hpre
          (by simpa using hfuel)
        have hx : (st.afterRecv none).exit = false := hst.running
        refine ⟨st', ?_, hrec⟩
        simpa [loop, recvRound, hx] using hrun
      · obtain ⟨more, hmore⟩ := hpre
        have hs : s ++ c ++ (got ++ more) = wire fmt.write ps := by
          rw [← hmore]
          simp only [List.append_assoc]
        obtain ⟨st', hround, hsplit, hmsg, hexit⟩ :=
          recvRound_receives fmt maxMsgLen none fuel hps hst hc hs (by omega)
        have hx : st'.exit = false := by
          rw [hexit]
          exact hst.running
        obtain ⟨st'', hrun, hrec, hmsg'⟩ := ih (s ++ c) st' ⟨hx, hsplit⟩ ⟨more, hmore⟩
          (by rw [List.length_append]; omega)
        refine ⟨st'', ?_, hrec, hmsg.trans hmsg'⟩
        simpa [loop, hround, hx] using hrun

end Receiver

/-! ## The sender -/

/-- What an application asks a session to write, through one of the write calls. -/
inductive Request (P : Type) where
  | writePkg (p : P) (timeout : Int)
  | writeBytes (p : P)
  | writeBytesArray (ps : List P)
  | send (p : P)
  | sendBatch (ps : List P)
  deriving Repr, DecidableEq

def Request.packages : Request P → List P
  | .writePkg p _ => [p]
  | .writeBytes p => [p]
  | .writeBytesArray ps => ps
  | .send p => [p]
  | .sendBatch ps => ps

/-- The call with the encoded packages. -/
def Request.call (write : P → Bytes) : Request P → WriteStream.Call
  | .writePkg p timeout => .writePkg (write p) timeout
  | .writeBytes p => .writeBytes (write p)
  | .writeBytesArray ps => .writeBytesArray (ps.map write)
  | .send p => .send (.bytes (write p))
  | .sendBatch ps => .send (.buffers (ps.map write))

private theorem present_write (fmt : ReadWriter P) {ps : List P} (h : ∀ p ∈ ps, fmt.ok p) :
    WriteStream.present (ps.map fmt.write) = ps.map fmt.write := by
  apply List.filter_eq_self.mpr
  intro b hb
  obtain ⟨p, hp, rfl⟩ := List.mem_map.mp hb
  simpa using fmt.write_ne_nil p (h p hp)

/-- The packages of a call are those of the request. -/
theorem packages_call (fmt : ReadWriter P) (q : Request P) (h : ∀ p ∈ q.packages, fmt.ok p) :
    (q.call fmt.write).packages = q.packages.map fmt.write := by
  cases q with
  | writePkg p timeout => exact present_write fmt h
  | writeBytes p => exact present_write fmt h
  | writeBytesArray ps => exact present_write fmt h
  | send p => exact present_write fmt h
  | sendBatch ps => exact present_write fmt h

private theorem payload_call (write : P → Bytes) (q : Request P) :
    (q.call write).payload = wire write q.packages := by
  cases q with
  | writePkg p timeout => simp [Request.call, WriteStream.Call.payload, Request.packages]
  | writeBytes p => simp [Request.call, WriteStream.Call.payload, Request.packages]
  | writeBytesArray ps => rfl
  | send p =>
      simp [Request.call, WriteStream.Call.payload, Request.packages, WriteStream.Pkg.data,
        WriteStream.Pkg.slices]
  | sendBatch ps => rfl

/-- The write calls of some requests, before any of them has begun. -/
def writers (fmt : ReadWriter P) (requests : List (Request P)) :
    Conf WriteStream.Shared WriteStream.Thread :=
  WriteStream.initial (requests.map (Request.call fmt.write))

/-- **The sender's half.**  The stream is a beginning of the packages of the requests, in an
order that keeps those of each request in theirs. -/
theorem stream_is_packages (fmt : ReadWriter P) (cfg : WriteStream.Cfg)
    {requests : List (Request P)} (hok : ∀ q ∈ requests, ∀ p ∈ q.packages, fmt.ok p)
    {c : Conf WriteStream.Shared WriteStream.Thread}
    (hrun : (WriteStream.prog cfg).Reaches (writers fmt requests) c) :
    ∃ ps, Shuffle (requests.map Request.packages) ps ∧
      c.shared.stream <+: wire fmt.write ps ∧
      (c.pool = [] → c.shared.stream = wire fmt.write ps) := by
  obtain ⟨w, hw, hpre, hall⟩ := WriteStream.packages_never_torn hrun
  have hmap : (requests.map (Request.call fmt.write)).map WriteStream.Call.packages =
      (requests.map Request.packages).map (List.map fmt.write) := by
    rw [List.map_map, List.map_map]
    exact List.map_congr_left fun q hq => packages_call fmt q (hok q hq)
  rw [hmap] at hw
  obtain ⟨ps, rfl, hps⟩ := hw.of_map
  exact ⟨ps, hps, hpre, hall⟩

/-! ## From end to end -/

theorem fits_of_shuffle (fmt : ReadWriter P) (maxMsgLen : Int) {requests : List (Request P)}
    {ps : List P} (hfit : ∀ q ∈ requests, ∀ p ∈ q.packages, fmt.Fits maxMsgLen p)
    (hps : Shuffle (requests.map Request.packages) ps) : ∀ p ∈ ps, fmt.Fits maxMsgLen p := by
  intro p hp
  obtain ⟨l, hl, hpl⟩ := List.mem_flatten.mp (hps.perm.subset hp)
  obtain ⟨q, hq, rfl⟩ := List.mem_map.mp hl
  exact hfit q hq p hpl

/-- The loop sees EOF after everything else. -/
theorem handle_eof (env : Env P) (fuel : Nat) {rounds : List Round} {st : State P}
    (h : handleTCPPackage env fuel none rounds = .blocked st) :
    handleTCPPackage env fuel none (rounds ++ [⟨false, [], some .eof⟩]) =
      .returned none st.messages := by
  simp only [handleTCPPackage] at h ⊢
  rw [loop_append, h]
  simp [loop, recvRound, State.afterRecv]

/-- **A TCP session delivers packages.**  Any requests are written concurrently, over plain
TCP, TLS or a codec; at any time, any beginning `got` of the stream arrives in any pieces.
The packages of the requests have an order, with those of each request in theirs, such that
`handleTCPPackage` has dispatched exactly the packages that have completely arrived: none
is lost, duplicated, reordered within its request, torn or mixed with another one.  When
all calls have returned and all of the stream has arrived these are all packages, and EOF
ends the loop without an error. -/
theorem tcp_channel (fmt : ReadWriter P) (maxMsgLen : Int) (cfg : WriteStream.Cfg)
    (requests : List (Request P))
    (hfit : ∀ q ∈ requests, ∀ p ∈ q.packages, fmt.Fits maxMsgLen p)
    (c : Conf WriteStream.Shared WriteStream.Thread)
    (hrun : (WriteStream.prog cfg).Reaches (writers fmt requests) c)
    (got : Bytes) (rounds : List Round) (harr : Arrives got rounds)
    (hgot : got <+: c.shared.stream) (fuel : Nat) (hfuel : got.length ≤ fuel) :
    ∃ ps st, Shuffle (requests.map Request.packages) ps ∧
      handleTCPPackage (fmt.env maxMsgLen) fuel none rounds = .blocked st ∧
      Split fmt.write ps got st.messages st.pktBuf ∧
      (c.pool = [] → got = c.shared.stream →
        handleTCPPackage (fmt.env maxMsgLen) fuel none (rounds ++ [⟨false, [], some .eof⟩]) =
          .returned none ps) := by
  obtain ⟨ps, hps, hpre, hall⟩ :=
    stream_is_packages fmt cfg (fun q hq p hp => (hfit q hq p hp).1) hrun
  have hfits := fits_of_shuffle fmt maxMsgLen hfit hps
  obtain ⟨st, hloop, hrec, -⟩ := loop_receives fmt maxMsgLen harr hfits fuel [] State.init
    (received_init fmt maxMsgLen ps hfits) (hgot.trans hpre) (by simpa using hfuel)
  refine ⟨ps, st, hps, hloop, hrec.split, fun hdone heq => ?_⟩
  have hcomplete := hrec.split.complete (heq.trans (hall hdone))
  rw [handle_eof _ fuel hloop, hcomplete.1]

/-- Packages of one byte. -/
def bytePackages : ReadWriter UInt8 where
  write b := [b]
  read data := ⟨data.head?, 1, none⟩
  ok _ := True
  write_ne_nil _ _ := by simp
  complete b data _ h := by
    obtain ⟨rest, rfl⟩ := h
    rfl
  pending b data _ hne _ hlt := by
    have := List.length_pos_of_ne_nil hne
    simp only [List.length_singleton] at hlt
    omega

/-- A batch of two packages and a third one. -/
def batchAndByte : List (Request UInt8) := [.writeBytesArray [1, 2], .send 3]

/-- Over TLS the third package gets between those of the batch, and all three arrive. -/
theorem tcp_channel_tls :
    ∃ c ps, (WriteStream.prog ⟨false, false⟩).Reaches (writers bytePackages batchAndByte) c ∧
      c.shared.stream = [1, 3, 2] ∧ Shuffle [[1, 2], [3]] ps ∧
      handleTCPPackage (bytePackages.env 1) 3 none
        [⟨false, [1], none⟩, ⟨false, [], some .timeout⟩, ⟨false, [3, 2], none⟩,
          ⟨false, [], some .eof⟩] = .returned none ps := by
  have hrun : (WriteStream.prog ⟨false, false⟩).run (writers bytePackages batchAndByte)
      [.fire 0 0, .fire 1 0, .fire 0 0, .fire 0 0, .fire 1 0, .fire 0 0, .fire 0 0, .fire 0 0,
        .fire 0 0] =
      some ⟨⟨0, false, false, [1, 3, 2],
        [.writeBytesArray [[1], [2]], .send (.bytes [3])], []⟩, []⟩ := rfl
  obtain ⟨ps, st, hps, -, -, hall⟩ := tcp_channel bytePackages 1 ⟨false, false⟩ batchAndByte
    (fun _ _ _ _ => ⟨trivial, Or.inr (Int.le_refl 1)⟩) _ ⟨_, hrun⟩ [1, 3, 2]
    [⟨false, [1], none⟩, ⟨false, [], some .timeout⟩, ⟨false, [3, 2], none⟩]
    (.bytes [1] (.timeout (.bytes [3, 2] .nil))) (List.prefix_refl _) 3 (by decide)
  exact ⟨_, ps, ⟨_, hrun⟩, rfl, hps, hall rfl rfl⟩

/-- **Batches arrive in one piece** over plain TCP, with a codec, and wherever no batch has
more than one package: the packages dispatched at any time are the beginning of those of
some of the requests, one request after the other, and all of them in the end. -/
theorem tcp_channel_batches (fmt : ReadWriter P) (maxMsgLen : Int) (cfg : WriteStream.Cfg)
    (requests : List (Request P))
    (hfit : ∀ q ∈ requests, ∀ p ∈ q.packages, fmt.Fits maxMsgLen p)
    (hcont : ∀ q ∈ requests, WriteStream.Contiguous cfg (q.call fmt.write))
    (c : Conf WriteStream.Shared WriteStream.Thread)
    (hrun : (WriteStream.prog cfg).Reaches (writers fmt requests) c)
    (got : Bytes) (rounds : List Round) (harr : Arrives got rounds)
    (hgot : got <+: c.shared.stream) (fuel : Nat) (hfuel : got.length ≤ fuel) :
    ∃ (order : List (Request P)) (st : State P), order.Subperm requests ∧
      handleTCPPackage (fmt.env maxMsgLen) fuel none rounds = .blocked st ∧
      Split fmt.write (order.flatMap Request.packages) got st.messages st.pktBuf ∧
      (c.pool = [] → got = c.shared.stream → order.Perm requests ∧
        handleTCPPackage (fmt.env maxMsgLen) fuel none (rounds ++ [⟨false, [], some .eof⟩]) =
          .returned none (order.flatMap Request.packages)) := by
  obtain ⟨calls, hsub, hpre, hall⟩ := WriteStream.calls_in_order (fun call hcall => by
    obtain ⟨q, hq, rfl⟩ := List.mem_map.mp hcall
    exact hcont q hq) hrun
  obtain ⟨order, horder, rfl⟩ := subperm_of_map hsub
  have hwire : ((order.map (Request.call fmt.write)).map WriteStream.Call.payload).flatten =
      wire fmt.write (order.flatMap Request.packages) := by
    rw [List.map_map]
    clear hsub hpre hall horder
    induction order with
    | nil => rfl
    | cons q order ih =>
        rw [List.map_cons, List.flatten_cons, ih, List.flatMap_cons, wire_append]
        rw [Function.comp_apply, payload_call]
  rw [hwire] at hpre hall
  have hfits : ∀ p ∈ order.flatMap Request.packages, fmt.Fits maxMsgLen p := by
    intro p hp
    obtain ⟨q, hq, hpq⟩ := List.mem_flatMap.mp hp
    exact hfit q (horder.subset hq) p hpq
  obtain ⟨st, hloop, hrec, -⟩ := loop_receives fmt maxMsgLen harr hfits fuel [] State.init
    (received_init fmt maxMsgLen _ hfits) (hgot.trans hpre) (by simpa using hfuel)
  refine ⟨order, st, horder, hloop, hrec.split, fun hdone heq => ?_⟩
  obtain ⟨hlen, hstream⟩ := hall hdone
  have hcomplete := hrec.split.complete (heq.trans hstream)
  refine ⟨horder.perm_of_length_le (by simpa using hlen.ge), ?_⟩
  rw [handle_eof _ fuel hloop, hcomplete.1]

/-- Over plain TCP the batch arrives in one piece, here after the third package. -/
theorem tcp_channel_batches_plain :
    ∃ (c : Conf WriteStream.Shared WriteStream.Thread) (order : List (Request UInt8)),
      (WriteStream.prog ⟨true, false⟩).Reaches (writers bytePackages batchAndByte) c ∧
      c.shared.stream = [3, 1, 2] ∧ order.Perm batchAndByte ∧
      handleTCPPackage (bytePackages.env 1) 3 none
        [⟨false, [3, 1], none⟩, ⟨false, [2], none⟩, ⟨false, [], some .eof⟩] =
        .returned none (order.flatMap Request.packages) := by
  have hrun : (WriteStream.prog ⟨true, false⟩).run (writers bytePackages batchAndByte)
      [.fire 0 0, .fire 1 0, .fire 1 0, .fire 0 0, .fire 0 0, .fire 0 0] =
      some ⟨⟨0, false, false, [3, 1, 2],
        [.send (.bytes [3]), .writeBytesArray [[1], [2]]], []⟩, []⟩ := rfl
  obtain ⟨order, st, -, -, -, hall⟩ := tcp_channel_batches bytePackages 1 ⟨true, false⟩
    batchAndByte (fun _ _ _ _ => ⟨trivial, Or.inr (Int.le_refl 1)⟩) (fun _ _ => Or.inl rfl) _
    ⟨_, hrun⟩ [3, 1, 2] [⟨false, [3, 1], none⟩, ⟨false, [2], none⟩]
    (.bytes [3, 1] (.bytes [2] .nil)) (List.prefix_refl _) 3 (by decide)
  obtain ⟨hperm, hret⟩ := hall rfl rfl
  exact ⟨_, order, ⟨_, hrun⟩, rfl, hperm, hret⟩

/-! ## With a codec on the wire -/

section Codec

open Getty.Verified.StreamCodec
open Getty.Transport.CodecStream (Peer received)

variable {κ δ : Type}

/-- What the loop gets from `recv` calls that have returned these chunks. -/
def chunkRounds (chunks : List Bytes) : List Round := chunks.map fun c => ⟨false, c, none⟩

theorem arrives_chunks (chunks : List Bytes) : Arrives chunks.flatten (chunkRounds chunks) := by
  induction chunks with
  | nil => exact .nil
  | cons c chunks ih => exact .bytes c ih

/-- The packages that the `Send` calls of a connection have carried, in the order of its
codec lock. -/
def Carries (fmt : ReadWriter P) (s : CodecConn.Shared κ) (sends : List (List P)) : Prop :=
  s.results.map (fun r => r.arg.packages) = sends.map (List.map fmt.write)

/-- The loop over the chunks of `recv`, when they are a beginning of the packages. -/
private theorem handle_chunks (fmt : ReadWriter P) (maxMsgLen : Int) {ps : List P}
    (hfit : ∀ p ∈ ps, fmt.Fits maxMsgLen p) {chunks : List Bytes}
    (hpre : chunks.flatten <+: wire fmt.write ps) {fuel : Nat}
    (hfuel : (wire fmt.write ps).length ≤ fuel) :
    ∃ st, handleTCPPackage (fmt.env maxMsgLen) fuel none (chunkRounds chunks) = .blocked st ∧
      Split fmt.write ps chunks.flatten st.messages st.pktBuf := by
  have hlen := hpre.length_le
  obtain ⟨st, hloop, hrec, -⟩ := loop_receives fmt maxMsgLen (arrives_chunks chunks) hfit fuel []
    State.init (received_init fmt maxMsgLen ps hfit) hpre (by rw [List.length_nil]; omega)
  exact ⟨st, hloop, hrec.split⟩

/-- **A compressed TCP session delivers packages.**  Let the `Send` calls of a connection
with any transparent codec have succeeded so far, and its wire arrive at the other side in
any pieces and with any timeouts that do not reach the decoder.  `handleTCPPackage` over
what `recv` returns has dispatched exactly the packages that are decoded completely, in the
order of the `Send` calls; and once the rest of the wire is delivered, `recv` calls with a
buffer of any size let it dispatch all of them. -/
theorem codec_channel (fmt : ReadWriter P) (maxMsgLen : Int) (E : Encoder UInt8 κ)
    (D : Decoder UInt8 δ) (hT : Transparent E D) (cfg : CodecConn.Cfg)
    (c : Conf (CodecConn.Shared κ) CodecConn.Thread)
    (hc : (CodecConn.prog cfg E).Reaches (CodecConn.initial E) c)
    (hfree : c.shared.lock = false) (hopen : c.shared.closeOnce = .fresh)
    (hsent : ∀ r ∈ c.shared.results, r.err = none) (sends : List (List P))
    (hcarries : Carries fmt c.shared sends)
    (hfit : ∀ p ∈ sends.flatten, fmt.Fits maxMsgLen p) (cfg' : CodecConn.Cfg)
    (evs : List CodecStream.Event) (peer : Peer δ) (hrun : (Peer.init D).run cfg' D evs = some peer)
    (hok : peer.failed = none) (rest : Bytes) (hwire : received evs ++ rest = c.shared.wire)
    (fuel : Nat) (hfuel : (wire fmt.write sends.flatten).length ≤ fuel) :
    (∃ st, handleTCPPackage (fmt.env maxMsgLen) fuel none (chunkRounds peer.out) = .blocked st ∧
      Split fmt.write sends.flatten peer.out.flatten st.messages st.pktBuf) ∧
    ∀ size, 0 < size → peer.call = none ∨ peer.call = some size →
      ∃ evs' peer' st, peer.run cfg' D evs' = some peer' ∧ received evs' = rest ∧
        handleTCPPackage (fmt.env maxMsgLen) fuel none (chunkRounds peer'.out) = .blocked st ∧
        st.messages = sends.flatten := by
  have hout := CodecStream.wire_eq_output (CodecConn.holds_reaches hc).shared hfree hopen hsent
  have hblocks : (c.shared.results.map fun r => r.arg.packages).flatten.flatten =
      wire fmt.write sends.flatten := by
    rw [hcarries, ← List.map_flatten]
    rfl
  rw [hout] at hwire
  have hd : peer.Delivered D (received evs) := by
    simpa using Peer.run_delivered (Peer.delivered_init D) hrun hok
  have hpre := hd.sound hT ⟨rest, hwire⟩
  rw [hblocks] at hpre
  refine ⟨handle_chunks fmt maxMsgLen hfit hpre hfuel, fun size hsize hcall => ?_⟩
  have hdrains : peer.Drains cfg' D rest := by
    rcases hcall with hnone | hsome
    · have hrecv := Peer.step_recv (D := D) cfg' hnone hok size
      have hd' := Peer.step_delivered hd hrecv hok
      simp only [CodecStream.Event.data, List.append_nil] at hd'
      exact (Peer.drains hT cfg' hsize hd' hwire hok rfl).step hrecv
    · exact Peer.drains hT cfg' hsize hd hwire hok hsome
  obtain ⟨evs', peer', hrun', hok', hrest, hw⟩ := hdrains
  have hall := Peer.run_delivered hd hrun' hok'
  rw [hrest, hwire] at hall
  have heq := hall.complete hT hw
  rw [hblocks] at heq
  have hpre' : peer'.out.flatten <+: wire fmt.write sends.flatten := heq ▸ List.prefix_refl _
  obtain ⟨st, hst, hsplit⟩ := handle_chunks fmt maxMsgLen hfit hpre' hfuel
  exact ⟨evs', peer', st, hrun', hrest, hst, (hsplit.complete heq).1⟩

/-- Two `Send` calls over the codec that changes nothing, the second with a batch. -/
def byteSends : List (Move CodecConn.Thread) :=
  [.start (.send (.bytes [1]) false [⟨0, 1, none, 1, none, 0, 0⟩] .check)] ++
    List.replicate 9 (.fire 0 0) ++
    [.start (.send (.buffers [[2], [3]]) false
      [⟨0, 1, none, 1, none, 0, 0⟩, ⟨0, 1, none, 1, none, 0, 0⟩] .check)] ++
    List.replicate 13 (.fire 1 0)

/-- One byte has been returned by `recv`, and the others can be had. -/
theorem codec_channel_bytes :
    ∃ c peer, (CodecConn.prog ⟨1⟩ stored).run (CodecConn.initial stored) byteSends = some c ∧
      c.shared.wire = [1, 2, 3] ∧
      (Peer.init unstored).run ⟨1⟩ unstored
        [.recv 1, .poll ⟨1, 0, 0, none, [1, 2], none, false, 0⟩, .go 0, .go 0] = some peer ∧
      ∃ evs' peer' st, peer.run ⟨1⟩ unstored evs' = some peer' ∧ received evs' = [3] ∧
        handleTCPPackage (bytePackages.env 0) 3 none (chunkRounds peer'.out) = .blocked st ∧
        st.messages = [1, 2, 3] := by
  refine ⟨_, _, rfl, rfl, rfl, ?_⟩
  have hmain := codec_channel bytePackages 0 stored unstored .stored ⟨1⟩ _ ⟨byteSends, rfl⟩ rfl rfl
    (by decide) [[1], [2, 3]] rfl (fun _ _ => ⟨trivial, Or.inl (by decide)⟩) ⟨1⟩
    [.recv 1, .poll ⟨1, 0, 0, none, [1, 2], none, false, 0⟩, .go 0, .go 0] _ rfl rfl [3] rfl 3
    (by decide)
  exact hmain.2 1 Nat.one_pos (Or.inl rfl)

end Codec

end Getty.Transport.Channel
