import Getty.Verified.ThreadPool
import Getty.Transport.Basic
import Mathlib.Data.List.Count
import Mathlib.Data.List.Perm.Basic

/-!
# Concurrent writers on one byte stream

`WriteBytes`, `WriteBytesArray`, `WritePkg` and `Send` of a session over a
`gettyTCPConn` all end in `conn.Send`, and each picks its own mode of
`packetLock`.  A call holds the lock over its sends; one send is one
`conn.Write`, one `writev`, one `conn.Write` per package, or one critical
section of the codec writer, depending on the connection.

The threads below are the calls of one session.  `stream` is what they have put
on the connection, before compression.  Two fields are ghosts: `order` lists the
calls by their first byte, and `rest` is what the last of them still owes.

The invariant is that the stream together with `rest` is the concatenation of
the payloads in `order`.  A call keeps it when nobody else can write until it has
written everything, which the exclusive lock and the codec lock both provide.
The read lock does not, and is enough only for a call with a single write.

## Main results

* `outline_valid` — the invariant survives every step of every call.
* `writers_never_interleave` — the stream is a concatenation of whole payloads.
-/

namespace Getty.Transport.WriteStream

open Getty.Verified.ThreadPool

/-! ## What the calls do -/

/-- The connection: whether the `net.Conn` is a `*net.TCPConn`, and whether
`SetCompressType` has installed a codec. -/
structure Cfg where
  tcp : Bool
  codec : Bool
  deriving Repr, DecidableEq

/-- The argument of `gettyTCPConn.Send`: a byte slice or a batch. -/
inductive Pkg where
  | bytes (b : Bytes)
  | buffers (bs : List Bytes)
  deriving Repr, DecidableEq

/-- The byte slices of a package, in order. -/
def Pkg.slices : Pkg → List Bytes
  | .bytes b => [b]
  | .buffers bs => bs

def Pkg.data (p : Pkg) : Bytes := p.slices.flatten

/-- A call of the session's write interface.  The package of `writePkg` is what
the `Writer` has encoded. -/
inductive Call where
  | writeBytes (pkg : Bytes)
  | writeBytesArray (pkgs : List Bytes)
  | writePkg (pkg : Bytes) (timeout : Int)
  | send (pkg : Pkg)
  deriving Repr, DecidableEq

/-- The bytes a call has to put on the stream. -/
def Call.payload : Call → Bytes
  | .writeBytes pkg => pkg
  | .writeBytesArray pkgs => pkgs.flatten
  | .writePkg pkg _ => pkg
  | .send pkg => pkg.data

/-- How a call writes: the mode of `packetLock`, and its `conn.Send`s. -/
structure Plan where
  exclusive : Bool
  sends : List Pkg

/-- The slices `WriteBytes` sends one by one. -/
def fragments (pkg : Bytes) : List Bytes :=
  if maxPacketLen < pkg.length then
    pkg.take maxPacketLen :: fragments (pkg.drop maxPacketLen)
  else if pkg = [] then []
  else [pkg]
termination_by pkg.length
decreasing_by
  rw [List.length_drop]
  have : 0 < maxPacketLen := by decide
  omega

def writeBytes (pkg : Bytes) : Plan :=
  ⟨(WriteMethod.writeBytes pkg.length).exclusive .tcp, (fragments pkg).map .bytes⟩

/-- A batch of one is a `WriteBytes`; any other batch is one `conn.Send` under
the read lock. -/
def writeBytesArray : List Bytes → Plan
  | [pkg] => writeBytes pkg
  | pkgs => ⟨(WriteMethod.writeBytesArray (pkgs.map List.length)).exclusive .tcp, [.buffers pkgs]⟩

/-- A timeout of its own needs the write lock. -/
def writePkg (pkg : Bytes) (timeout : Int) : Plan :=
  ⟨(WriteMethod.writePkg timeout).exclusive .tcp, [.bytes pkg]⟩

def send (pkg : Pkg) : Plan := ⟨WriteMethod.send.exclusive .tcp, [pkg]⟩

def Call.plan : Call → Plan
  | .writeBytes pkg => WriteStream.writeBytes pkg
  | .writeBytesArray pkgs => WriteStream.writeBytesArray pkgs
  | .writePkg pkg timeout => WriteStream.writePkg pkg timeout
  | .send pkg => WriteStream.send pkg

/-! ## Threads and steps -/

/-- Where a call is: before `packetLock`, before its next `conn.Send`, inside a
`net.Buffers.WriteTo` that writes slice by slice, or inside the critical section
of the codec writer. -/
inductive Pc where
  | lock
  | send (todo : List Pkg)
  | write (slices : List Bytes) (todo : List Pkg)
  | codec (slices : List Bytes) (todo : List Pkg)
  deriving Repr, DecidableEq

/-- A call in progress; `logged` is ghost, and set once it is in `order`. -/
structure Thread where
  call : Call
  pc : Pc
  logged : Bool
  deriving Repr, DecidableEq

def Thread.start (c : Call) : Thread := ⟨c, .lock, false⟩

def Thread.goto (th : Thread) (pc : Pc) : Thread := ⟨th.call, pc, th.logged⟩

/-- The connection and its locks, with the ghosts `order` and `rest`. -/
structure Shared where
  rlocks : Nat
  wlock : Bool
  codecLock : Bool
  stream : Bytes
  order : List Call
  rest : Bytes
  deriving Repr, DecidableEq

def Shared.init : Shared := ⟨0, false, false, [], [], []⟩

/-- One atomic write.  The first byte of a call puts it in `order`. -/
def put (s : Shared) (th : Thread) (b : Bytes) : Shared × Thread :=
  if b = [] then (s, th)
  else if th.logged then
    ({ s with stream := s.stream ++ b, rest := s.rest.drop b.length }, th)
  else
    ({ s with
        stream := s.stream ++ b, order := s.order ++ [th.call]
        rest := th.call.payload.drop b.length },
      { th with logged := true })

/-- `packetLock.Lock` or `RLock`. -/
def lockStep (s : Shared) (th : Thread) : List (Shared × List Thread) :=
  if th.call.plan.exclusive then
    if s.wlock = false ∧ s.rlocks = 0 then
      [({ s with wlock := true }, [th.goto (.send th.call.plan.sends)])]
    else []
  else if s.wlock then []
  else [({ s with rlocks := s.rlocks + 1 }, [th.goto (.send th.call.plan.sends)])]

/-- The deferred unlock; a call without a byte enters `order` here. -/
def unlockStep (s : Shared) (th : Thread) : Shared :=
  let s := if th.logged then s else { s with order := s.order ++ [th.call] }
  if th.call.plan.exclusive then { s with wlock := false } else { s with rlocks := s.rlocks - 1 }

/-- `gettyTCPConn.Send`, up to its first lock or its only write. -/
def sendStep (cfg : Cfg) (s : Shared) (th : Thread) (p : Pkg) (todo : List Pkg) :
    List (Shared × List Thread) :=
  if cfg.codec then
    if s.codecLock then []
    else [({ s with codecLock := true }, [th.goto (.codec p.slices todo)])]
  else
    match p with
    | .bytes b => [((put s th b).1, [(put s th b).2.goto (.send todo)])]
    | .buffers bs =>
        if cfg.tcp then
          [((put s th bs.flatten).1, [(put s th bs.flatten).2.goto (.send todo)])]
        else [(s, [th.goto (.write bs todo)])]

/-- One step of a call. -/
def step (cfg : Cfg) (s : Shared) (th : Thread) : List (Shared × List Thread) :=
  match th.pc with
  | .lock => lockStep s th
  | .send [] => [(unlockStep s th, [])]
  | .send (p :: todo) => sendStep cfg s th p todo
  | .write [] todo => [(s, [th.goto (.send todo)])]
  | .write (b :: bs) todo => [((put s th b).1, [(put s th b).2.goto (.write bs todo)])]
  | .codec [] todo => [({ s with codecLock := false }, [th.goto (.send todo)])]
  | .codec (b :: bs) todo => [((put s th b).1, [(put s th b).2.goto (.codec bs todo)])]

/-- The writers of a session: all calls are there from the start, and any of
them may be scheduled late. -/
def prog (cfg : Cfg) : Prog Shared Thread where
  entry _ _ := false
  step := step cfg

def initial (calls : List Call) : Conf Shared Thread := ⟨Shared.init, calls.map Thread.start⟩

/-! ## Plans -/

private theorem fragments_flatten (pkg : Bytes) : (fragments pkg).flatten = pkg := by
  fun_induction fragments pkg with
  | case1 pkg h ih => rw [List.flatten_cons, ih, List.take_append_drop]
  | case2 h => rfl
  | case3 pkg h hne => simp

/-- What the sends still put on the stream. -/
def todoData (todo : List Pkg) : Bytes := (todo.map Pkg.data).flatten

@[simp] theorem todoData_nil : todoData [] = [] := rfl

@[simp] theorem todoData_cons (p : Pkg) (todo : List Pkg) :
    todoData (p :: todo) = p.data ++ todoData todo := rfl

private theorem todoData_bytes (bs : List Bytes) : todoData (bs.map .bytes) = bs.flatten := by
  induction bs with
  | nil => rfl
  | cons b bs ih => simp [Pkg.data, Pkg.slices, ih]

/-- A batch of zero or several packages shares the lock. -/
theorem writeBytesArray_batch {pkgs : List Bytes} (h : ∀ pkg, pkgs ≠ [pkg]) :
    writeBytesArray pkgs = ⟨false, [.buffers pkgs]⟩ := by
  match pkgs, h with
  | [], _ => rfl
  | [pkg], h => exact absurd rfl (h pkg)
  | _ :: _ :: _, _ => rfl

private theorem writeBytes_data (pkg : Bytes) : todoData (writeBytes pkg).sends = pkg := by
  rw [writeBytes, todoData_bytes, fragments_flatten]

/-- **The sends of a call are its payload.** -/
theorem plan_data (c : Call) : todoData c.plan.sends = c.payload := by
  cases c with
  | writeBytes pkg => exact writeBytes_data pkg
  | writeBytesArray pkgs =>
      simp only [Call.plan, Call.payload]
      unfold writeBytesArray
      split
      · next pkg => simp [writeBytes_data]
      · simp [Pkg.data, Pkg.slices]
  | writePkg pkg timeout => simp [Call.plan, writePkg, Call.payload, Pkg.data, Pkg.slices]
  | send pkg => simp [Call.plan, send, Call.payload]

/-- The sends are plain byte slices. -/
def AllBytes (todo : List Pkg) : Prop := ∀ p ∈ todo, ∃ b, p = .bytes b

private theorem writeBytes_shared (pkg : Bytes) (h : (writeBytes pkg).exclusive = false) :
    (writeBytes pkg).sends.length ≤ 1 := by
  simp only [writeBytes, WriteMethod.exclusive, decide_eq_false_iff_not] at h
  simp only [writeBytes, List.length_map]
  rw [fragments, if_neg h]
  split <;> simp

/-- Under the read lock a call makes at most one send. -/
theorem plan_shared (c : Call) (h : c.plan.exclusive = false) : c.plan.sends.length ≤ 1 := by
  cases c with
  | writeBytes pkg => exact writeBytes_shared pkg h
  | writeBytesArray pkgs =>
      simp only [Call.plan] at h ⊢
      unfold writeBytesArray at h ⊢
      split
      · exact writeBytes_shared _ h
      · simp
  | writePkg pkg timeout => simp [Call.plan, writePkg]
  | send pkg => simp [Call.plan, send]

private theorem writeBytes_allBytes (pkg : Bytes) : AllBytes (writeBytes pkg).sends := by
  intro p hp
  obtain ⟨b, -, rfl⟩ := List.mem_map.mp hp
  exact ⟨b, rfl⟩

/-- Under the write lock a call sends no batch. -/
theorem plan_exclusive (c : Call) (h : c.plan.exclusive = true) : AllBytes c.plan.sends := by
  cases c with
  | writeBytes pkg => exact writeBytes_allBytes pkg
  | writeBytesArray pkgs =>
      by_cases hone : ∃ pkg, pkgs = [pkg]
      · obtain ⟨pkg, rfl⟩ := hone
        exact writeBytes_allBytes pkg
      · rw [Call.plan, writeBytesArray_batch fun pkg hpkgs => hone ⟨pkg, hpkgs⟩] at h
        cases h
  | writePkg pkg timeout =>
      intro p hp
      exact ⟨pkg, List.mem_singleton.mp hp⟩
  | send pkg => cases h

/-! ## The invariant -/

/-- What a call still has to write. -/
def Thread.rem (th : Thread) : Bytes :=
  match th.pc with
  | .lock => th.call.payload
  | .send todo => todoData todo
  | .write slices todo => slices.flatten ++ todoData todo
  | .codec slices todo => slices.flatten ++ todoData todo

/-- The call holds `packetLock`. -/
def Pc.holds : Pc → Bool
  | .lock => false
  | _ => true

/-- The call is in the critical section of the codec writer. -/
def Pc.inCodec : Pc → Bool
  | .codec _ _ => true
  | _ => false

@[simp] theorem holds_lock : Pc.lock.holds = false := rfl

@[simp] theorem holds_send (todo : List Pkg) : (Pc.send todo).holds = true := rfl

@[simp] theorem holds_codec (bs : List Bytes) (todo : List Pkg) :
    (Pc.codec bs todo).holds = true := rfl

@[simp] theorem inCodec_lock : Pc.lock.inCodec = false := rfl

@[simp] theorem inCodec_send (todo : List Pkg) : (Pc.send todo).inCodec = false := rfl

@[simp] theorem inCodec_write (bs : List Bytes) (todo : List Pkg) :
    (Pc.write bs todo).inCodec = false := rfl

@[simp] theorem inCodec_codec (bs : List Bytes) (todo : List Pkg) :
    (Pc.codec bs todo).inCodec = true := rfl

/-- Nobody else can write: the call holds the write lock or the codec lock. -/
def Thread.owns (th : Thread) : Bool :=
  th.pc.holds && th.call.plan.exclusive || th.pc.inCodec

/-- The packages of a call that are not empty. -/
def nonempty (slices : List Bytes) : Nat := slices.countP (· ≠ [])

/-- The call cannot be interrupted: its batch leaves in one `writev` or in one
critical section of the codec, or has at most one package to write. -/
def Contiguous (cfg : Cfg) (c : Call) : Prop :=
  cfg.tcp = true ∨ cfg.codec = true ∨ ∀ bs, .buffers bs ∈ c.plan.sends → nonempty bs ≤ 1

/-- What is true of a call at its program counter. -/
def Thread.At (cfg : Cfg) (th : Thread) : Prop :=
  match th.pc with
  | .lock => th.logged = false
  | .send todo =>
      (th.call.plan.exclusive = true → AllBytes todo) ∧
        (th.call.plan.exclusive = false → todo.length ≤ 1 ∧
          (∀ p ∈ todo, p ∈ th.call.plan.sends) ∧ (th.logged = true → todo = []))
  | .write slices todo =>
      cfg.codec = false ∧ th.call.plan.exclusive = false ∧ todo = [] ∧ nonempty slices ≤ 1 ∧
        (th.logged = true → slices.flatten = [])
  | .codec _ todo =>
      cfg.codec = true ∧ (th.call.plan.exclusive = true → AllBytes todo) ∧
        (th.call.plan.exclusive = false → todo = [])

/-- The assertion of a call. -/
structure Local (cfg : Cfg) (s : Shared) (th : Thread) : Prop where
  contiguous : Contiguous cfg th.call
  loc : th.At cfg
  fresh : th.logged = false → th.rem = th.call.payload
  owes : th.owns = true → s.rest = if th.logged then th.rem else []

/-- The invariant of the connection. -/
structure Inv (cfg : Cfg) (s : Shared) : Prop where
  rw : s.wlock = true → s.rlocks = 0
  coded : s.codecLock = true → cfg.codec = true
  blocks : s.stream ++ s.rest = (s.order.map Call.payload).flatten
  closed : s.rest ≠ [] → s.wlock = true ∨ s.codecLock = true

/-- The ledgers: who holds `packetLock` in which mode, who is in the codec, who
holds `packetLock` outside the codec, and which calls are not in `order` yet. -/
inductive Ledger where
  | readers
  | writer
  | codec
  | outside
  | pending (c : Call)

/-- The proof outline of the writers of `calls`. -/
def outline (cfg : Cfg) (calls : List Call) : Outline Shared Thread Ledger where
  shared := Inv cfg
  loc := Local cfg
  val
    | .readers, s => s.rlocks
    | .writer, s => s.wlock.toNat
    | .codec, s => s.codecLock.toNat
    | .outside, s => s.rlocks + s.wlock.toNat - s.codecLock.toNat
    | .pending c, s => calls.count c - s.order.count c
  wt
    | .readers, th => (th.pc.holds && !th.call.plan.exclusive).toNat
    | .writer, th => (th.pc.holds && th.call.plan.exclusive).toNat
    | .codec, th => th.pc.inCodec.toNat
    | .outside, th => (th.pc.holds && !th.pc.inCodec).toNat
    | .pending c, th => (th.call == c && !th.logged).toNat

@[simp] theorem goto_call (th : Thread) (pc : Pc) : (th.goto pc).call = th.call := rfl

@[simp] theorem goto_pc (th : Thread) (pc : Pc) : (th.goto pc).pc = pc := rfl

@[simp] theorem goto_logged (th : Thread) (pc : Pc) : (th.goto pc).logged = th.logged := rfl

/-! ## One write -/

section Put

variable {s : Shared} {th : Thread} {b r : Bytes}

@[simp] theorem put_rlocks : (put s th b).1.rlocks = s.rlocks := by
  unfold put; split <;> [rfl; split <;> rfl]

@[simp] theorem put_wlock : (put s th b).1.wlock = s.wlock := by
  unfold put; split <;> [rfl; split <;> rfl]

@[simp] theorem put_codecLock : (put s th b).1.codecLock = s.codecLock := by
  unfold put; split <;> [rfl; split <;> rfl]

@[simp] theorem put_call : (put s th b).2.call = th.call := by
  unfold put; split <;> [rfl; split <;> rfl]

/-- A write is in place: it is empty, or continues the block that is open, or
opens the block of its call while none is open. -/
inductive InPlace (s : Shared) (th : Thread) (b r : Bytes) : Prop where
  | empty (h : b = [])
  | continues (h : th.logged = true) (hrest : s.rest = b ++ r)
  | starts (h : th.logged = false) (hpay : th.call.payload = b ++ r) (hrest : s.rest = [])

/-- A write in place keeps the blocks whole. -/
private theorem put_blocks (h : InPlace s th b r)
    (hs : s.stream ++ s.rest = (s.order.map Call.payload).flatten) :
    (put s th b).1.stream ++ (put s th b).1.rest =
      ((put s th b).1.order.map Call.payload).flatten := by
  unfold put
  split
  · exact hs
  · next hne =>
      cases h with
      | empty h => exact absurd h hne
      | continues hl hrest =>
          rw [if_pos hl]
          dsimp only
          rw [hrest, List.drop_left, List.append_assoc, ← hrest]
          exact hs
      | starts hl hpay hrest =>
          rw [if_neg (by simp [hl])]
          dsimp only
          rw [hrest, List.append_nil] at hs
          rw [hpay, List.drop_left, List.append_assoc, ← hpay, hs]
          simp

/-- What a write in place leaves owing. -/
theorem put_rest (h : InPlace s th b r) : (put s th b).1.rest = if b = [] then s.rest else r := by
  unfold put
  split
  · next hb => rfl
  · next hb =>
      cases h with
      | empty h => exact absurd h hb
      | continues hl hrest => rw [if_pos hl]; simp [hrest]
      | starts hl hpay hrest => rw [if_neg (by simp [hl])]; simp [hpay]

theorem put_logged : (put s th b).2.logged = (th.logged || decide (b ≠ [])) := by
  unfold put
  split
  · next hb => simp [hb]
  · next hb =>
      split
      · next hl => simp [hl]
      · simp [hb]

private theorem put_order (c : Call) :
    (put s th b).1.order.count c + (th.call == c && !(put s th b).2.logged).toNat =
      s.order.count c + (th.call == c && !th.logged).toNat := by
  rw [put_logged]
  unfold put
  split
  · next hb => simp [hb]
  · next hb =>
      split
      · next hl => simp [hl]
      · next hl =>
          by_cases hc : th.call = c <;> simp [hc, hb, hl]

end Put

/-! ## The steps of a call -/

section Own

variable {cfg : Cfg} {calls : List Call} {s : Shared} {th : Thread}

/-- What a step of the outline has to deliver for the thread that takes it. -/
abbrev Keeps (cfg : Cfg) (calls : List Call) (s : Shared) (th : Thread) (s' : Shared)
    (ths : List Thread) : Prop :=
  (outline cfg calls).Keeps s th s' ths

/-- The ledgers bound the call's own weights. -/
abbrev Booked (cfg : Cfg) (calls : List Call) (s : Shared) (th : Thread) : Prop :=
  (outline cfg calls).Booked s th

/-- A call that holds the read lock excludes the write lock. -/
theorem Booked.no_writer (hb : Booked cfg calls s th) (hs : Inv cfg s) (hh : th.pc.holds = true)
    (hx : th.call.plan.exclusive = false) : s.wlock = false := by
  have hr := hb .readers
  simp only [outline, hh, hx, Bool.not_false, Bool.and_self, Bool.toNat_true, Nat.cast_one] at hr
  by_contra hw
  have := hs.rw (by simpa using hw)
  omega

theorem Booked.writer (hb : Booked cfg calls s th) (hh : th.pc.holds = true)
    (hx : th.call.plan.exclusive = true) : s.wlock = true := by
  have hw := hb .writer
  cases h : s.wlock with
  | true => rfl
  | false => simp [outline, hh, hx, h] at hw

theorem Booked.codec (hb : Booked cfg calls s th) (hc : th.pc.inCodec = true) :
    s.codecLock = true := by
  have hw := hb .codec
  cases h : s.codecLock with
  | true => rfl
  | false => simp [outline, hc, h] at hw

/-- An owner has one of the two locks. -/
theorem Booked.owner (hb : Booked cfg calls s th) (ho : th.owns = true) :
    s.wlock = true ∨ s.codecLock = true := by
  simp only [Thread.owns, Bool.or_eq_true, Bool.and_eq_true] at ho
  rcases ho with ⟨hh, hx⟩ | hc
  · exact Or.inl (hb.writer hh hx)
  · exact Or.inr (hb.codec hc)

/-- Every write of a call is in place. -/
theorem inPlace (hs : Inv cfg s) (hl : Local cfg s th) (hb : Booked cfg calls s th) {b r : Bytes}
    (hrem : th.rem = b ++ r) (hh : th.pc.holds = true) (hcod : cfg.codec = th.pc.inCodec)
    (hsingle : th.owns = false → th.logged = true → b = []) : InPlace s th b r := by
  cases ho : th.owns with
  | true =>
      have howes := hl.owes ho
      cases hlog : th.logged with
      | true =>
          rw [hlog, if_pos rfl, hrem] at howes
          exact .continues hlog howes
      | false =>
          rw [hlog] at howes
          exact .starts hlog (by rw [← hrem, hl.fresh hlog]) howes
  | false =>
      cases hlog : th.logged with
      | true => exact .empty (hsingle ho hlog)
      | false =>
          refine .starts hlog (by rw [← hrem, hl.fresh hlog]) ?_
          simp only [Thread.owns, hh, Bool.true_and, Bool.or_eq_false_iff] at ho
          by_contra hne
          rcases hs.closed hne with hw | hc
          · rw [hb.no_writer hs hh ho.1] at hw
            cases hw
          · rw [hs.coded hc, ho.2] at hcod
            cases hcod

/-- **A write step.** -/
theorem keeps_put (hs : Inv cfg s) (hl : Local cfg s th) (hb : Booked cfg calls s th)
    {b r : Bytes} {pc : Pc} (hrem : th.rem = b ++ r) (hh : th.pc.holds = true)
    (hcod : cfg.codec = th.pc.inCodec)
    (hsingle : th.owns = false → (th.logged = true → b = []) ∧ (b ≠ [] → r = []))
    (hat : ((put s th b).2.goto pc).At cfg) (hrem' : ((put s th b).2.goto pc).rem = r)
    (hh' : pc.holds = true) (hcod' : pc.inCodec = th.pc.inCodec) :
    Keeps cfg calls s th (put s th b).1 [(put s th b).2.goto pc] := by
  have hplace := inPlace hs hl hb hrem hh hcod (fun ho => (hsingle ho).1)
  refine Outline.keeps_one
    ⟨by simpa using hs.rw, by simpa using hs.coded, put_blocks hplace hs.blocks, ?_⟩ ?_ ?_
  · rw [put_rest hplace, put_wlock, put_codecLock]
    split
    · exact hs.closed
    · next hbne =>
        intro hr
        cases ho : th.owns with
        | true => exact hb.owner ho
        | false => exact absurd ((hsingle ho).2 hbne) hr
  · refine ⟨by simpa using hl.contiguous, hat, ?_, ?_⟩
    · intro hlog
      simp only [goto_logged, put_logged, Bool.or_eq_false_iff, decide_eq_false_iff_not,
        not_not] at hlog
      rw [hrem', goto_call, put_call, ← hl.fresh hlog.1, hrem, hlog.2, List.nil_append]
    · intro ho
      have ho' : th.owns = true := by
        simpa [Thread.owns, hh', hh, hcod'] using ho
      rw [put_rest hplace, hrem', goto_logged, put_logged]
      by_cases hbnil : b = []
      · have howes := hl.owes ho'
        rw [hrem, hbnil, List.nil_append] at howes
        simp [hbnil, howes]
      · simp [hbnil]
  · intro i
    cases i with
    | readers => simp [outline, hh', hh]
    | writer => simp [outline, hh', hh]
    | codec => simp [outline, hcod']
    | outside => simp [outline, hh', hh, hcod']
    | pending c =>
        have := @put_order s th b c
        simp only [outline, goto_call, goto_logged, put_call]
        omega

/-- A step that moves the program counter and writes nothing. -/
private theorem keeps_goto (hs : Inv cfg s) (hl : Local cfg s th) {pc : Pc}
    (hat : (th.goto pc).At cfg) (hrem : (th.goto pc).rem = th.rem)
    (hh : pc.holds = th.pc.holds) (hcod : pc.inCodec = th.pc.inCodec) :
    Keeps cfg calls s th s [th.goto pc] := by
  refine Outline.keeps_one hs ?_ ?_
  · refine ⟨hl.contiguous, hat, fun hlog => hrem.trans (hl.fresh hlog), fun ho => ?_⟩
    rw [hrem]
    exact hl.owes (by simpa [Thread.owns, hh, hcod] using ho)
  · intro i
    cases i <;> simp [outline, hh, hcod]

private theorem keeps_lock (hs : Inv cfg s) (hl : Local cfg s th) (hb : Booked cfg calls s th)
    (hpc : th.pc = .lock) {s' : Shared} {ths : List Thread} (h : (s', ths) ∈ lockStep s th) :
    Keeps cfg calls s th s' ths := by
  have hnot : th.logged = false := by
    simpa only [Thread.At, hpc] using hl.loc
  have hfresh : (th.goto (.send th.call.plan.sends)).rem = th.call.payload := plan_data th.call
  unfold lockStep at h
  split at h
  · next hx =>
      split at h
      · next hfree =>
          simp only [List.mem_singleton, Prod.mk.injEq] at h
          obtain ⟨rfl, rfl⟩ := h
          -- nobody holds `packetLock`, so nobody is in the codec and no block is open
          have hidle : s.codecLock = false := by
            have hout := hb .outside
            simp only [outline, hpc, holds_lock, hfree.1, hfree.2] at hout
            cases hc : s.codecLock with
            | false => rfl
            | true => simp [hc] at hout
          have hrest : s.rest = [] := by
            by_contra hne
            simpa [hfree, hidle] using hs.closed hne
          refine Outline.keeps_one
            ⟨fun _ => hfree.2, hs.coded, hs.blocks, fun _ => Or.inl rfl⟩ ?_ ?_
          · refine ⟨hl.contiguous, ?_, fun _ => hfresh, fun _ => ?_⟩
            · exact ⟨plan_exclusive th.call, fun hx' => by simp [hx] at hx'⟩
            · simp [hnot, hrest]
          · intro i
            cases i with
            | outside => simp [outline, hpc, hfree.1]; omega
            | _ => simp [outline, hpc, hx, hfree.1]
      · cases h
  · next hx =>
      have hx' : th.call.plan.exclusive = false := by simpa using hx
      split at h
      · cases h
      · next hfree =>
          simp only [List.mem_singleton, Prod.mk.injEq] at h
          obtain ⟨rfl, rfl⟩ := h
          refine Outline.keeps_one ⟨fun hw => absurd hw hfree, hs.coded, hs.blocks, hs.closed⟩ ?_ ?_
          · refine ⟨hl.contiguous, ?_, fun _ => hfresh, fun ho => ?_⟩
            · exact ⟨fun hx => by simp [hx'] at hx, fun _ =>
                ⟨plan_shared th.call hx', fun p hp => hp, by simp [hnot]⟩⟩
            · simp [Thread.owns, hx'] at ho
          · intro i
            cases i with
            | outside => simp [outline, hpc]; omega
            | _ => simp [outline, hpc, hx']

private theorem keeps_unlock (hs : Inv cfg s) (hl : Local cfg s th) (hb : Booked cfg calls s th)
    (hpc : th.pc = .send []) : Keeps cfg calls s th (unlockStep s th) [] := by
  have hrem : th.rem = [] := by simp [Thread.rem, hpc]
  have hh : th.pc.holds = true := by rw [hpc]; rfl
  -- an unlogged call has nothing to write, so it may enter `order` anywhere
  have hblocks : ∀ s' : Shared, s'.stream = s.stream → s'.rest = s.rest →
      s'.order = (if th.logged then s.order else s.order ++ [th.call]) →
      s'.stream ++ s'.rest = (s'.order.map Call.payload).flatten := by
    intro s' hstream hrest horder
    rw [hstream, hrest, horder, hs.blocks]
    cases hlog : th.logged with
    | true => simp
    | false => simp [← hl.fresh hlog, hrem]
  have hcount : ∀ c, (if th.logged then s.order else s.order ++ [th.call]).count c =
      s.order.count c + (th.call == c && !th.logged).toNat := by
    intro c
    cases hlog : th.logged with
    | true => simp
    | false => by_cases hc : th.call = c <;> simp [hc]
  have hown : th.call.plan.exclusive = true → s.rest = [] := by
    intro hx
    rw [hl.owes (by simp [Thread.owns, hh, hx]), hrem]
    split <;> rfl
  have hcodec : th.pc.inCodec = false := by rw [hpc]; rfl
  have hkeep : Keeps cfg calls s th
      { s with
        order := if th.logged then s.order else s.order ++ [th.call]
        wlock := s.wlock && !th.call.plan.exclusive
        rlocks := s.rlocks - (!th.call.plan.exclusive).toNat } [] := by
    cases hx : th.call.plan.exclusive with
    | true =>
        refine ⟨⟨by simp, hs.coded, hblocks _ rfl rfl rfl, fun hne => absurd (hown hx) hne⟩,
          by simp, ?_⟩
        have hw := hb.writer hh hx
        intro i
        cases i with
        | pending c => simp [outline, hcount c]; omega
        | outside => simp [outline, hh, hw, hcodec]; omega
        | _ => simp [outline, hh, hw, hx, hcodec]
    | false =>
        have hnw := hb.no_writer hs hh hx
        have hr := hb .readers
        simp only [outline, hh, hx, Bool.not_false, Bool.and_self, Bool.toNat_true,
          Nat.cast_one] at hr
        refine ⟨⟨by simp [hnw], hs.coded, hblocks _ rfl rfl rfl, by simpa using hs.closed⟩,
          by simp, ?_⟩
        intro i
        cases i with
        | pending c => simp [outline, hcount c]; omega
        | outside => simp [outline, hh, hnw, hcodec]; omega
        | readers => simp [outline, hh, hx]; omega
        | _ => simp [outline, hh, hnw, hx, hcodec]
  convert hkeep using 1
  unfold unlockStep
  cases th.logged <;> cases hx : th.call.plan.exclusive <;> simp

/-- A call enters the critical section of the codec writer. -/
private theorem keeps_codecLock (hs : Inv cfg s) (hl : Local cfg s th) (hb : Booked cfg calls s th)
    {p : Pkg} {todo : List Pkg} (hpc : th.pc = .send (p :: todo)) (hcfg : cfg.codec = true)
    (hfree : s.codecLock = false) :
    Keeps cfg calls s th { s with codecLock := true } [th.goto (.codec p.slices todo)] := by
  have hh : th.pc.holds = true := by rw [hpc]; rfl
  have hcodec : th.pc.inCodec = false := by rw [hpc]; rfl
  have hat := hl.loc
  simp only [Thread.At, hpc] at hat
  have hrem : (th.goto (.codec p.slices todo)).rem = th.rem := by
    simp [Thread.rem, hpc, Thread.goto, Pkg.data]
  refine Outline.keeps_one ⟨hs.rw, fun _ => hcfg, hs.blocks, fun _ => Or.inr rfl⟩ ?_ ?_
  · refine ⟨hl.contiguous, ?_, fun hlog => hrem.trans (hl.fresh hlog), fun _ => ?_⟩
    · exact ⟨hcfg, fun hx q hq => hat.1 hx q (List.mem_cons_of_mem p hq),
        fun hx => by simpa using (hat.2 hx).1⟩
    · rw [hrem, goto_logged]
      cases hx : th.call.plan.exclusive with
      | true => exact hl.owes (by simp [Thread.owns, hh, hx])
      | false =>
          -- under the read lock with a free codec no block is open
          have hlog : th.logged = false := by
            by_contra hlog
            simpa using (hat.2 hx).2.2 (by simpa using hlog)
          simp only [hlog, Bool.false_eq_true, if_false]
          by_contra hne
          simpa [hfree, hb.no_writer hs hh hx] using hs.closed hne
  · intro i
    cases i with
    | _ => simp [outline, hh, hcodec, hfree]

/-- A call leaves the critical section of the codec writer. -/
theorem keeps_codecUnlock (hs : Inv cfg s) (hl : Local cfg s th) (hb : Booked cfg calls s th)
    {todo : List Pkg} (hpc : th.pc = .codec [] todo) :
    Keeps cfg calls s th { s with codecLock := false } [th.goto (.send todo)] := by
  have hh : th.pc.holds = true := by rw [hpc]; rfl
  have hcodec : th.pc.inCodec = true := by rw [hpc]; rfl
  have hheld := hb.codec hcodec
  have howes := hl.owes (by simp [Thread.owns, hcodec])
  have hat := hl.loc
  simp only [Thread.At, hpc] at hat
  have hrem : (th.goto (.send todo)).rem = th.rem := by
    simp [Thread.rem, hpc, Thread.goto]
  refine Outline.keeps_one ⟨hs.rw, by simp, hs.blocks, ?_⟩ ?_ ?_
  · intro hne
    cases hx : th.call.plan.exclusive with
    | true => exact Or.inl (hb.writer hh hx)
    | false =>
        have hnil : th.rem = [] := by simp [Thread.rem, hpc, hat.2.2 hx]
        exact absurd (by rw [howes, hnil]; split <;> rfl) hne
  · refine ⟨hl.contiguous, ?_, fun hlog => hrem.trans (hl.fresh hlog), fun _ => ?_⟩
    · exact ⟨hat.2.1, fun hx => by simp [hat.2.2 hx]⟩
    · rw [hrem, goto_logged]
      exact howes
  · intro i
    cases i with
    | _ => simp [outline, hh, hcodec, hheld]

/-- A single write under the lock the call holds, on a connection without codec. -/
private theorem keeps_send_put (hs : Inv cfg s) (hl : Local cfg s th) (hb : Booked cfg calls s th)
    {p : Pkg} {todo : List Pkg} (hpc : th.pc = .send (p :: todo)) (hcfg : cfg.codec = false) :
    Keeps cfg calls s th (put s th p.data).1 [(put s th p.data).2.goto (.send todo)] := by
  have hat := hl.loc
  simp only [Thread.At, hpc] at hat
  refine keeps_put hs hl hb (r := todoData todo) (by simp [Thread.rem, hpc]) (by rw [hpc]; rfl)
    (by rw [hpc, hcfg]; rfl) ?_ ?_ rfl rfl (by rw [hpc]; rfl)
  · intro ho
    have hx : th.call.plan.exclusive = false := by
      simpa [Thread.owns, hpc] using ho
    obtain ⟨hlen, -, hlog⟩ := hat.2 hx
    have htodo : todo = [] := by simpa using hlen
    exact ⟨fun h => by simpa using hlog h, fun _ => by simp [htodo]⟩
  · simp only [Thread.At, goto_pc, goto_call, put_call]
    refine ⟨fun hx q hq => hat.1 hx q (List.mem_cons_of_mem p hq), fun hx => ?_⟩
    have htodo : todo = [] := by simpa using (hat.2 hx).1
    simp [htodo]

private theorem flatten_nil_of_nonempty {slices : List Bytes} (h : nonempty slices = 0) :
    slices.flatten = [] := by
  simp only [nonempty, List.countP_eq_zero] at h
  rw [List.flatten_eq_nil_iff]
  intro b hb
  simpa using h b hb

/-- One slice of a batch that leaves slice by slice. -/
private theorem keeps_write (hs : Inv cfg s) (hl : Local cfg s th) (hb : Booked cfg calls s th)
    {b : Bytes} {bs : List Bytes} {todo : List Pkg} (hpc : th.pc = .write (b :: bs) todo) :
    Keeps cfg calls s th (put s th b).1 [(put s th b).2.goto (.write bs todo)] := by
  have hat := hl.loc
  simp only [Thread.At, hpc] at hat
  obtain ⟨hcfg, hx, rfl, hone, hdone⟩ := hat
  simp only [nonempty, List.countP_cons, decide_eq_true_eq] at hone
  have hlast : b ≠ [] → bs.flatten = [] := by
    intro hne
    rw [if_pos hne] at hone
    exact flatten_nil_of_nonempty (by unfold nonempty; omega)
  refine keeps_put hs hl hb (r := bs.flatten) (by simp [Thread.rem, hpc]) (by rw [hpc]; rfl)
    (by rw [hpc, hcfg]; rfl) ?_ ?_ (by simp [Thread.rem]) rfl (by rw [hpc]; rfl)
  · intro _
    refine ⟨fun hlog => ?_, hlast⟩
    have := hdone hlog
    rw [List.flatten_cons, List.append_eq_nil_iff] at this
    exact this.1
  · simp only [Thread.At, goto_pc, goto_call, put_call, goto_logged, put_logged]
    refine ⟨hcfg, hx, trivial, by unfold nonempty; omega, fun hlog => ?_⟩
    simp only [Bool.or_eq_true, decide_eq_true_eq] at hlog
    rcases hlog with hlog | hne
    · have := hdone hlog
      rw [List.flatten_cons, List.append_eq_nil_iff] at this
      exact this.2
    · exact hlast hne

/-- One slice inside the codec. -/
private theorem keeps_codec (hs : Inv cfg s) (hl : Local cfg s th) (hb : Booked cfg calls s th)
    {b : Bytes} {bs : List Bytes} {todo : List Pkg} (hpc : th.pc = .codec (b :: bs) todo) :
    Keeps cfg calls s th (put s th b).1 [(put s th b).2.goto (.codec bs todo)] := by
  have hat := hl.loc
  simp only [Thread.At, hpc] at hat
  have hown : th.owns = true := by simp [Thread.owns, hpc]
  refine keeps_put hs hl hb (r := bs.flatten ++ todoData todo) (by simp [Thread.rem, hpc])
    (by rw [hpc]; rfl) (by rw [hpc, hat.1]; rfl) ?_ ?_ rfl rfl (by rw [hpc]; rfl)
  · intro ho
    rw [hown] at ho
    cases ho
  · simpa [Thread.At] using hat

/-- **Step lemma**, for the call that takes the step. -/
theorem keeps_step (hs : Inv cfg s) (hl : Local cfg s th) (hb : Booked cfg calls s th)
    {s' : Shared} {ths : List Thread} (h : (s', ths) ∈ step cfg s th) :
    Keeps cfg calls s th s' ths := by
  have hat := hl.loc
  unfold step at h
  split at h
  · next hpc => exact keeps_lock hs hl hb hpc h
  · next hpc =>
      cases List.mem_singleton.mp h
      exact keeps_unlock hs hl hb hpc
  · next p todo hpc =>
      simp only [Thread.At, hpc] at hat
      unfold sendStep at h
      split at h
      · next hcfg =>
          split at h
          · cases h
          · next hfree =>
              cases List.mem_singleton.mp h
              exact keeps_codecLock hs hl hb hpc hcfg (by simpa using hfree)
      · next hcfg =>
          have hcfg' : cfg.codec = false := by simpa using hcfg
          split at h
          · next b =>
              cases List.mem_singleton.mp h
              simpa [Pkg.data, Pkg.slices] using keeps_send_put hs hl hb hpc hcfg'
          · next bs =>
              split at h
              · cases List.mem_singleton.mp h
                exact keeps_send_put hs hl hb hpc hcfg'
              · next htcp =>
                  cases List.mem_singleton.mp h
                  cases hx : th.call.plan.exclusive with
                  | true =>
                      obtain ⟨b, hb'⟩ := hat.1 hx (.buffers bs) (List.mem_cons_self ..)
                      cases hb'
                  | false =>
                      obtain ⟨hlen, hmem, hlog⟩ := hat.2 hx
                      have htodo : todo = [] := by simpa using hlen
                      have hone : nonempty bs ≤ 1 := by
                        rcases hl.contiguous with h | h | h
                        · exact absurd h htcp
                        · exact absurd h hcfg
                        · exact h bs (hmem _ (List.mem_cons_self ..))
                      refine keeps_goto hs hl ?_ ?_ (by rw [hpc]; rfl) (by rw [hpc]; rfl)
                      · exact ⟨hcfg', hx, htodo, hone, fun h => by simpa using hlog h⟩
                      · simp [Thread.rem, hpc, Pkg.data, Pkg.slices]
  · next todo hpc =>
      cases List.mem_singleton.mp h
      simp only [Thread.At, hpc] at hat
      refine keeps_goto hs hl ?_ (by simp [Thread.rem, hpc]) (by rw [hpc]; rfl) (by rw [hpc]; rfl)
      simp [Thread.At, hat.2.1, hat.2.2.1]
  · next b bs todo hpc =>
      cases List.mem_singleton.mp h
      exact keeps_write hs hl hb hpc
  · next todo hpc =>
      cases List.mem_singleton.mp h
      exact keeps_codecUnlock hs hl hb hpc
  · next b bs todo hpc =>
      cases List.mem_singleton.mp h
      exact keeps_codec hs hl hb hpc

end Own

/-! ## Interference -/

/-- A call changes `rest` only while it holds `packetLock`, and on a connection
with a codec only inside it. -/
private theorem step_rest {cfg : Cfg} {s s' : Shared} {th : Thread} {ths : List Thread}
    (hl : th.At cfg) (h : (s', ths) ∈ step cfg s th) :
    s'.rest = s.rest ∨ (th.pc.holds = true ∧ (cfg.codec = true → th.pc.inCodec = true)) := by
  unfold step at h
  split at h
  · left
    unfold lockStep at h
    split at h
    · split at h
      · cases List.mem_singleton.mp h; rfl
      · cases h
    · split at h
      · cases h
      · cases List.mem_singleton.mp h; rfl
  · left
    cases List.mem_singleton.mp h
    unfold unlockStep
    split <;> split <;> rfl
  · next hpc =>
      unfold sendStep at h
      split at h
      · left
        split at h
        · cases h
        · cases List.mem_singleton.mp h; rfl
      · next hcfg => exact Or.inr ⟨by rw [hpc]; rfl, fun hc => absurd hc hcfg⟩
  · left
    cases List.mem_singleton.mp h; rfl
  · next hpc =>
      simp only [Thread.At, hpc] at hl
      exact Or.inr ⟨by rw [hpc]; rfl, fun hc => by rw [hl.1] at hc; cases hc⟩
  · left
    cases List.mem_singleton.mp h; rfl
  · next hpc => exact Or.inr ⟨by rw [hpc]; rfl, fun _ => by rw [hpc]; rfl⟩

/-- **Step lemma**, for a call that another one interferes with. -/
theorem local_interference {cfg : Cfg} {calls : List Call} {s s' : Shared} {a b : Thread}
    {ths : List Thread} (hs : Inv cfg s) (ha : Local cfg s a) (hb : Local cfg s b)
    (hpair : ∀ i, ((outline cfg calls).wt i a : Int) + (outline cfg calls).wt i b ≤
      (outline cfg calls).val i s)
    (h : (s', ths) ∈ step cfg s a) : Local cfg s' b := by
  refine ⟨hb.contiguous, hb.loc, hb.fresh, fun ho => ?_⟩
  rcases step_rest ha.loc h with hrest | ⟨hheld, hcodec⟩
  · rw [hrest]
    exact hb.owes ho
  · -- an owner leaves no other call where it could write
    exfalso
    have hw := hpair .writer
    have hr := hpair .readers
    have hc := hpair .codec
    have hwl : s.wlock.toNat ≤ 1 := Bool.toNat_le _
    have hcl : s.codecLock.toNat ≤ 1 := Bool.toNat_le _
    simp only [Thread.owns, Bool.or_eq_true, Bool.and_eq_true] at ho
    rcases ho with ⟨hhb, hxb⟩ | hcb
    · cases hxa : a.call.plan.exclusive with
      | true =>
          simp only [outline, hheld, hxa, hhb, hxb, Bool.and_self, Bool.toNat_true] at hw
          omega
      | false =>
          simp only [outline, hheld, hxa, hhb, hxb, Bool.and_self, Bool.toNat_true,
            Bool.not_false, Bool.not_true, Bool.and_false, Bool.toNat_false] at hw hr
          have := hs.rw (by
            cases h : s.wlock with
            | true => rfl
            | false => simp [h] at hw)
          omega
    · have hcfg : cfg.codec = true := by
        have := hb.loc
        cases hpc : b.pc with
        | codec slices todo =>
            simp only [Thread.At, hpc] at this
            exact this.1
        | _ => simp [hpc] at hcb
      simp only [outline, hcodec hcfg, hcb, Bool.toNat_true] at hc
      omega

theorem outline_valid (cfg : Cfg) (calls : List Call) : (outline cfg calls).Valid (prog cfg) where
  entry _ _ _ h := by cases h
  own _ _ _ _ hs hl hb h := keeps_step hs hl hb h
  other _ _ _ _ _ hs ha hb hpair h := local_interference hs ha hb hpair h

/-! ## Whole runs -/

/-- All calls are waiting for `packetLock`. -/
theorem outline_initial (cfg : Cfg) (calls : List Call) (h : ∀ c ∈ calls, Contiguous cfg c) :
    (outline cfg calls).Holds (initial calls) := by
  refine ⟨⟨by simp [initial, Shared.init], by simp [initial, Shared.init], rfl,
    by simp [initial, Shared.init]⟩, ?_, ?_⟩
  · intro th hth
    obtain ⟨c, hc, rfl⟩ := List.mem_map.mp hth
    exact ⟨h c hc, rfl, fun _ => rfl, fun ho => by
      simp [Thread.owns, Thread.start] at ho⟩
  · have hzero : ∀ (wt : Thread → Nat), (∀ c, wt (Thread.start c) = 0) →
        total wt (calls.map Thread.start) = 0 := by
      intro wt hwt
      induction calls with
      | nil => rfl
      | cons c calls ih =>
          rw [List.map_cons, total_cons, hwt c, ih (fun c hc => h c (List.mem_cons_of_mem _ hc))]
          rfl
    intro i
    cases i with
    | pending c =>
        simp only [outline, initial, Shared.init, List.count_nil]
        clear hzero h
        induction calls with
        | nil => rfl
        | cons d calls ih =>
            rw [List.map_cons, total_cons, ← ih, List.count_cons]
            by_cases hd : d = c <;> simp [Thread.start, hd]
            omega
    | _ => exact (hzero _ (fun c => rfl)).symm

/-- **Concurrent writers never interleave inside one call**, when the net.Conn
is a TCP connection, or a codec is installed, or no batch has more than one
package to write.  Once all calls have returned, the stream is a concatenation
of their whole payloads. -/
theorem writers_never_interleave (cfg : Cfg) (calls : List Call)
    (h : ∀ c ∈ calls, Contiguous cfg c) (c : Conf Shared Thread)
    (hrun : (prog cfg).Reaches (initial calls) c) (hdone : c.pool = []) :
    ∃ order : List Call, order.Perm calls ∧
      c.shared.stream = (order.map Call.payload).flatten := by
  have hc := (outline_valid cfg calls).holds_run (outline_initial cfg calls h) hrun
  refine ⟨c.shared.order, ?_, ?_⟩
  · rw [List.perm_iff_count]
    intro call
    have := hc.ledger (.pending call)
    rw [hdone, total_nil] at this
    simp only [outline] at this
    omega
  · have hrest : c.shared.rest = [] := by
      have hw := hc.ledger .writer
      have hcod := hc.ledger .codec
      rw [hdone, total_nil] at hw hcod
      simp only [outline, Int.natCast_eq_zero, Bool.toNat_eq_zero] at hw hcod
      by_contra hne
      simpa [hw, hcod] using hc.shared.closed hne
    rw [← hc.shared.blocks, hrest, List.append_nil]

/-- A batch of two packages and a `Send` of a third. -/
def batchAndSend : List Call := [.writeBytesArray [[1], [2]], .send (.bytes [3])]

/-- Over plain TCP the batch leaves in one write, also when the `Send` takes the
read lock before it. -/
theorem writers_never_interleave_tcp :
    ∃ c, (prog ⟨true, false⟩).Reaches (initial batchAndSend) c ∧ c.pool = [] ∧
      c.shared.stream = [3, 1, 2] ∧
      ∃ order : List Call, order.Perm batchAndSend ∧
        c.shared.stream = (order.map Call.payload).flatten := by
  have hrun : (prog ⟨true, false⟩).run (initial batchAndSend)
      [.fire 0 0, .fire 1 0, .fire 1 0, .fire 0 0, .fire 0 0, .fire 0 0] =
      some ⟨⟨0, false, false, [3, 1, 2],
        [.send (.bytes [3]), .writeBytesArray [[1], [2]]], []⟩, []⟩ := rfl
  exact ⟨_, ⟨_, hrun⟩, rfl, rfl, writers_never_interleave ⟨true, false⟩ batchAndSend
    (fun _ _ => Or.inl rfl) _ ⟨_, hrun⟩ rfl⟩

/-- Over TLS without a codec the same batch is two writes under the read lock,
and the `Send` gets between them. -/
theorem batch_interrupted_on_tls :
    ∃ c, (prog ⟨false, false⟩).Reaches (initial batchAndSend) c ∧ c.pool = [] ∧
      c.shared.stream = [1, 3, 2] ∧
      ¬ ∃ order : List Call, order.Perm batchAndSend ∧
        c.shared.stream = (order.map Call.payload).flatten := by
  have hrun : (prog ⟨false, false⟩).run (initial batchAndSend)
      [.fire 0 0, .fire 1 0, .fire 0 0, .fire 0 0, .fire 1 0, .fire 0 0, .fire 0 0, .fire 0 0,
        .fire 0 0] =
      some ⟨⟨0, false, false, [1, 3, 2],
        [.writeBytesArray [[1], [2]], .send (.bytes [3])], []⟩, []⟩ := rfl
  refine ⟨_, ⟨_, hrun⟩, rfl, rfl, ?_⟩
  rintro ⟨order, hperm, hstream⟩
  obtain ⟨x, y, rfl⟩ := List.length_eq_two.mp hperm.length_eq
  have hx : x ∈ batchAndSend := hperm.subset (by simp)
  have hy : y ∈ batchAndSend := hperm.subset (by simp)
  simp only [batchAndSend, List.mem_cons, List.not_mem_nil, or_false] at hx hy
  rcases hx with rfl | rfl <;> rcases hy with rfl | rfl <;> exact absurd hstream (by decide)

end Getty.Transport.WriteStream
