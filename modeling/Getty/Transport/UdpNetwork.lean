import Getty.Transport.UdpLimit
import Mathlib.Data.List.Perm.Subperm

/-!
# UDP sessions on a network that loses, copies and reorders

Any number of UDP sessions, each with its socket and its receive loop: clients, whose socket
is connected to one peer, and endpoints, which name the receiver in every package.  They call
`WritePkg` with a `UDPContext`, and a client may send its connect ping.  The network delivers
the datagrams in any order, and may lose some and copy others.

A session adds no failure of its own to those of the network.  The argument is one of
accounting: what was written and what was copied is what is in flight, lost or received; and
a listener gets, in the order of arrival, the packages of what its socket has received,
except those above its limit.

## Main results

* `handleDatagram_body` — what one datagram adds to what the listener gets.
* `sound_step` — every event keeps the account.
* `udp_network` — a listener gets what was written to it, from whom it was, and once.
-/

namespace Getty.Transport.Udp

variable {P : Type}

/-! ## Sessions -/

/-- The end point of a session: `UDP_CLIENT` with the peer of its socket, or
`UDP_ENDPOINT`. -/
inductive Kind where
  | client (peer : Nat)
  | endpoint
  deriving Repr, DecidableEq

/-- The errors of `gettyUDPConn.Send`. -/
inductive SendErr where
  | nullPeerAddr
  | messageTooLong
  deriving Repr, DecidableEq

/-- `gettyUDPConn.Send`, for a package of `len` bytes: where the datagram goes.  A connected
socket sends to its peer whatever the context says. -/
def send (kind : Kind) (peerAddr : Option Nat) (len : Nat) : Except SendErr Nat :=
  match kind, peerAddr with
  | .endpoint, none => .error .nullPeerAddr
  | .endpoint, some addr => if len ≤ maxDatagramLen then .ok addr else .error .messageTooLong
  | .client peer, _ => if len ≤ maxDatagramLen then .ok peer else .error .messageTooLong

/-- The application's `Writer` and `Reader`, for packages that fit in one datagram. -/
structure Format (P : Type) where
  write : P → Bytes
  read : Bytes → ReadResult P
  ok : P → Prop
  decodes : ∀ p, ok p → Decodes (write p)
  exact : ∀ p, ok p → read (write p) = ⟨some p, (write p).length, none⟩

def Format.env (fmt : Format P) (maxMsgLen : Int) : Env P where
  read _ data := fmt.read data
  maxMsgLen := fixedLimit maxMsgLen
  taskOpen _ := true

/-- What a datagram carries. -/
inductive Body (P : Type) where
  | pkg (p : P)
  | ping
  deriving Repr, DecidableEq

def Body.payload (fmt : Format P) : Body P → Bytes
  | .pkg p => fmt.write p
  | .ping => connectPingPackage

structure Packet (P : Type) where
  src : Nat
  dst : Nat
  body : Body P
  deriving Repr, DecidableEq

/-- A session with its receive loop. -/
structure Node (P : Type) where
  kind : Kind
  maxMsgLen : Int
  loop : Outcome P

/-- A connected socket only gets what its peer has sent. -/
def Node.hears (n : Node P) (src : Nat) : Bool :=
  match n.kind with
  | .endpoint => true
  | .client peer => src == peer

/-- The receive loop takes a turn. -/
def Node.recv (fmt : Format P) (n : Node P) (r : Recv) : Node P :=
  match n.loop with
  | .blocked st =>
      { n with
        loop := Udp.loop (fmt.env n.maxMsgLen) (udpReadBufferSize n.maxMsgLen).toNat
          [⟨false, r⟩] st }
  | _ => n

/-! ## The network -/

/-- The sessions by their address, and the books of the network. -/
structure Net (P : Type) where
  node : Nat → Node P
  flight : List (Packet P)
  written : List (Packet P)
  copied : List (Packet P)
  lost : List (Packet P)
  received : List (Packet P)

def Net.init (kind : Nat → Kind) (maxMsgLen : Nat → Int) : Net P where
  node a := ⟨kind a, maxMsgLen a, .blocked State.init⟩
  flight := []
  written := []
  copied := []
  lost := []
  received := []

inductive Event (P : Type) where
  /-- `WritePkg` with a `UDPContext`. -/
  | writePkg (a : Nat) (p : P) (peerAddr : Option Nat)
  /-- The connect ping of `dialUDP`. -/
  | connectPing (a : Nat)
  | deliver (i : Nat)
  | lose (i : Nat)
  | copy (i : Nat)
  /-- A read times out. -/
  | timeout (a : Nat)
  deriving Repr, DecidableEq

def Net.put (s : Net P) (d : Packet P) : Net P :=
  { s with flight := s.flight ++ [d], written := s.written ++ [d] }

def Net.set (s : Net P) (a : Nat) (n : Node P) : Net P :=
  { s with node := fun b => if b = a then n else s.node b }

/-- A datagram arrives at its socket. -/
def Net.arrive (fmt : Format P) (s : Net P) (d : Packet P) : Net P :=
  if (s.node d.dst).hears d.src then
    { s.set d.dst ((s.node d.dst).recv fmt (.datagram (d.body.payload fmt) d.src)) with
      received := s.received ++ [d] }
  else { s with lost := s.lost ++ [d] }

def Net.step (fmt : Format P) (s : Net P) : Event P → Option (Net P)
  | .writePkg a p peerAddr =>
      match send (s.node a).kind peerAddr (fmt.write p).length with
      | .error _ => some s
      | .ok b => some (s.put ⟨a, b, .pkg p⟩)
  | .connectPing a =>
      match (s.node a).kind with
      | .client b => some (s.put ⟨a, b, .ping⟩)
      | .endpoint => none
  | .deliver i =>
      match s.flight[i]? with
      | some d => some (Net.arrive fmt { s with flight := s.flight.eraseIdx i } d)
      | none => none
  | .lose i =>
      match s.flight[i]? with
      | some d => some { s with flight := s.flight.eraseIdx i, lost := s.lost ++ [d] }
      | none => none
  | .copy i =>
      match s.flight[i]? with
      | some d => some { s with flight := s.flight ++ [d], copied := s.copied ++ [d] }
      | none => none
  | .timeout a => some (s.set a ((s.node a).recv fmt (.failed .timeout)))

def Net.run (fmt : Format P) (s : Net P) : List (Event P) → Option (Net P)
  | [] => some s
  | e :: es => (s.step fmt e).bind fun s' => s'.run fmt es

/-- The packages of a run are those of the format. -/
def Event.Ok (fmt : Format P) : Event P → Prop
  | .writePkg _ p _ => fmt.ok p
  | _ => True

/-- What the listener of a session has got. -/
def Net.messages (s : Net P) (a : Nat) : List (UDPContext P) := (s.node a).loop.messages

/-- What a datagram is for a listener with a limit: the package with the address of its
sender, and nothing if it is too long or a connect ping. -/
def Packet.context (fmt : Format P) (maxMsgLen : Int) (d : Packet P) : Option (UDPContext P) :=
  match d.body with
  | .ping => none
  | .pkg p =>
      if maxMsgLen ≤ 0 ∨ ((fmt.write p).length : Int) ≤ maxMsgLen then some ⟨some p, d.src⟩
      else none

/-- What some datagrams are for the listener at an address. -/
def contexts (fmt : Format P) (maxMsgLen : Int) (a : Nat) (ds : List (Packet P)) :
    List (UDPContext P) :=
  (ds.filter fun d => d.dst == a).filterMap (Packet.context fmt maxMsgLen)

/-- What was written to a session, as far as its listener is to get it. -/
def Net.expected (fmt : Format P) (s : Net P) (a : Nat) : List (UDPContext P) :=
  contexts fmt (s.node a).maxMsgLen a s.written

/-! ## One datagram -/

/-- A package is from the format, and fits in a datagram. -/
def Packet.Good (fmt : Format P) (d : Packet P) : Prop :=
  ∀ p, d.body = .pkg p → fmt.ok p ∧ (fmt.write p).length ≤ maxDatagramLen

/-- Too many bytes for the limit: whatever the `Reader` says, nothing is dispatched. -/
private theorem handleDatagram_long (fmt : Format P) {m : Int} (hm : 0 < m) {buf : Bytes}
    (hlong : m < buf.length) (addr : Nat) (st : State P) :
    (handleDatagram (fmt.env m) buf addr st).messages = st.messages := by
  have hcheck : checkDatagram (fmt.env m) st.reads buf ≠ none := by
    rw [ne_eq, checkDatagram_eq_none]
    rintro ⟨-, hle⟩
    simp only [Format.env, fixedLimit] at hle
    omega
  unfold handleDatagram
  split
  · cases hc : checkDatagram (fmt.env m) st.reads buf with
    | some e => rfl
    | none => exact absurd hc hcheck
  · rfl

/-- The buffer holds a connect ping, or more than the limit. -/
private theorem take_connectPing (m : Int) :
    connectPingPackage.take (udpReadBufferSize m).toNat = connectPingPackage ∨
      0 < m ∧ m < (connectPingPackage.take (udpReadBufferSize m).toNat).length := by
  by_cases hm : m ≤ 0
  · exact Or.inl (take_of_within (by decide) (Or.inl hm))
  · by_cases hle : (connectPingPackage.length : Int) ≤ m
    · exact Or.inl (take_of_within (by decide) (Or.inr hle))
    · exact Or.inr ⟨by omega, lt_length_take (by omega) (by decide) (by omega)⟩

/-- What one datagram adds to what the listener gets. -/
theorem handleDatagram_body (fmt : Format P) (m : Int) (st : State P) {d : Packet P}
    (hd : d.Good fmt) :
    (handleDatagram (fmt.env m) ((d.body.payload fmt).take (udpReadBufferSize m).toNat) d.src
      st).messages = st.messages ++ (d.context fmt m).toList := by
  cases hb : d.body with
  | ping =>
      simp only [Body.payload, Packet.context, hb, Option.toList_none, List.append_nil]
      rcases take_connectPing m with hwhole | ⟨hm, hlong⟩
      · rw [hwhole, handleDatagram, if_neg (fun h => h.2 rfl)]
      · exact handleDatagram_long fmt hm hlong d.src st
  | pkg p =>
      obtain ⟨hok, hlen⟩ := hd p hb
      simp only [Body.payload, Packet.context, hb]
      by_cases hwithin : m ≤ 0 ∨ ((fmt.write p).length : Int) ≤ m
      · have hdec := fmt.decodes p hok
        have hcheck : checkDatagram (fmt.env m) st.reads (fmt.write p) = none := by
          rw [checkDatagram_eq_none]
          exact ⟨by simp [Format.env, fmt.exact p hok], hwithin⟩
        have hpos : ((fmt.write p).length : Int) ≠ 0 := by
          have := List.length_pos_of_ne_nil hdec.1
          omega
        have hread : (fmt.env m).read st.reads (fmt.write p) =
            ⟨some p, (fmt.write p).length, none⟩ := fmt.exact p hok
        rw [take_of_within hlen hwithin, if_pos hwithin, handleDatagram, if_pos hdec, hcheck, hread]
        dsimp only
        rw [if_neg hpos]
        simp [addTask, Format.env]
      · rw [if_neg hwithin, Option.toList_none, List.append_nil]
        refine handleDatagram_long fmt (by omega) ?_ d.src st
        exact lt_length_take (by omega) hlen (by omega)

/-! ## The account -/

/-- The loop of the session at `a` is running, and its listener has got the datagrams `ds`. -/
def Node.Heard (fmt : Format P) (n : Node P) (a : Nat) (ds : List (Packet P)) : Prop :=
  ∃ st, n.loop = .blocked st ∧ st.messages = contexts fmt n.maxMsgLen a ds

/-- What holds of the network all the time. -/
structure Net.Sound (fmt : Format P) (s : Net P) : Prop where
  account : (s.written ++ s.copied).Perm (s.flight ++ (s.lost ++ s.received))
  copies : ∀ d ∈ s.copied, d ∈ s.written
  good : ∀ d ∈ s.written, d.Good fmt
  heard : ∀ a, (s.node a).Heard fmt a s.received

section Account

variable {fmt : Format P} {s : Net P}

private theorem sound_init (kind : Nat → Kind) (maxMsgLen : Nat → Int) :
    (Net.init kind maxMsgLen : Net P).Sound fmt where
  account := List.Perm.refl _
  copies := List.forall_mem_nil _
  good := List.forall_mem_nil _
  heard _ := ⟨State.init, rfl, rfl⟩

/-- Whatever is in flight has been written. -/
theorem Net.Sound.mem_written (h : s.Sound fmt) {d : Packet P}
    (hd : d ∈ s.flight ++ (s.lost ++ s.received)) : d ∈ s.written := by
  rcases List.mem_append.mp (h.account.symm.subset hd) with hd | hd
  · exact hd
  · exact h.copies d hd

private theorem sound_put (h : s.Sound fmt) {d : Packet P} (hd : d.Good fmt) :
    (s.put d).Sound fmt where
  account := by
    have h1 : (s.written ++ [d] ++ s.copied).Perm (d :: (s.written ++ s.copied)) := by
      rw [List.append_assoc]
      exact List.perm_middle
    have h2 : (s.flight ++ [d] ++ (s.lost ++ s.received)).Perm
        (d :: (s.flight ++ (s.lost ++ s.received))) := by
      rw [List.append_assoc]
      exact List.perm_middle
    exact h1.trans ((h.account.cons d).trans h2.symm)
  copies x hx := List.mem_append_left _ (h.copies x hx)
  good x hx := by
    rcases List.mem_append.mp hx with hx | hx
    · exact h.good x hx
    · rw [List.mem_singleton.mp hx]
      exact hd
  heard := h.heard

/-- A datagram leaves the list of those in flight. -/
theorem perm_eraseIdx {flight rest : List (Packet P)} {i : Nat} {d : Packet P}
    (hi : flight[i]? = some d) : (flight ++ rest).Perm (flight.eraseIdx i ++ (d :: rest)) := by
  obtain ⟨hlt, rfl⟩ := List.getElem?_eq_some_iff.mp hi
  have hperm := List.getElem_cons_eraseIdx_perm hlt
  exact (hperm.symm.append_right rest).trans List.perm_middle.symm

theorem contexts_append (fmt : Format P) (m : Int) (a : Nat) (ds : List (Packet P))
    (d : Packet P) :
    contexts fmt m a (ds ++ [d]) = contexts fmt m a ds ++
      if d.dst = a then (d.context fmt m).toList else [] := by
  rw [contexts, contexts, List.filter_append, List.filterMap_append]
  congr 1
  by_cases hd : d.dst = a
  · rw [if_pos hd, List.filter_cons_of_pos (by simpa using hd)]
    cases h : d.context fmt m <;> simp [h]
  · rw [if_neg hd, List.filter_cons_of_neg (by simpa using hd)]
    rfl

/-- The receive loop gets a datagram. -/
private theorem heard_datagram {n : Node P} {d : Packet P} {ds : List (Packet P)}
    (h : n.Heard fmt d.dst ds) (hd : d.Good fmt) :
    (n.recv fmt (.datagram (d.body.payload fmt) d.src)).Heard fmt d.dst (ds ++ [d]) := by
  obtain ⟨st, hloop, hmsg⟩ := h
  have hmessages := handleDatagram_body fmt n.maxMsgLen st hd
  rw [Node.Heard, Node.recv, hloop]
  refine ⟨_, rfl, ?_⟩
  rw [hmessages, hmsg, contexts_append, if_pos rfl]

/-- A read of the receive loop times out. -/
private theorem heard_timeout {n : Node P} {a : Nat} {ds : List (Packet P)} (h : n.Heard fmt a ds) :
    (n.recv fmt (.failed .timeout)).Heard fmt a ds := by
  obtain ⟨st, hloop, hmsg⟩ := h
  rw [Node.Heard, Node.recv, hloop]
  exact ⟨_, rfl, hmsg⟩

/-- A datagram for somebody else. -/
private theorem heard_other {n : Node P} {a : Nat} {d : Packet P} {ds : List (Packet P)}
    (h : n.Heard fmt a ds) (hd : d.dst ≠ a) : n.Heard fmt a (ds ++ [d]) := by
  obtain ⟨st, hloop, hmsg⟩ := h
  refine ⟨st, hloop, ?_⟩
  rw [hmsg, contexts_append, if_neg hd, List.append_nil]

/-- A datagram that was in flight arrives at its socket. -/
theorem sound_arrive {i : Nat} {d : Packet P} (h : s.Sound fmt) (hi : s.flight[i]? = some d) :
    (Net.arrive fmt { s with flight := s.flight.eraseIdx i } d).Sound fmt := by
  have hgood := h.good d (h.mem_written (List.mem_append_left _ (List.mem_of_getElem? hi)))
  have hleave := h.account.trans (perm_eraseIdx hi)
  unfold Net.arrive
  split
  · refine ⟨?_, h.copies, h.good, fun a => ?_⟩
    · refine hleave.trans (List.Perm.append_left _ ?_)
      dsimp only [Net.set]
      rw [← List.append_assoc]
      exact (List.perm_append_singleton d _).symm
    · dsimp only [Net.set]
      split
      · next ha =>
          subst ha
          exact heard_datagram (h.heard d.dst) hgood
      · next ha => exact heard_other (h.heard a) (Ne.symm ha)
  · refine ⟨?_, h.copies, h.good, h.heard⟩
    refine hleave.trans (List.Perm.append_left _ ?_)
    dsimp only
    rw [List.append_assoc]
    exact List.perm_middle.symm

private theorem sound_timeout (h : s.Sound fmt) (a : Nat) :
    (s.set a ((s.node a).recv fmt (.failed .timeout))).Sound fmt := by
  refine ⟨h.account, h.copies, h.good, fun b => ?_⟩
  dsimp only [Net.set]
  split
  · next hb =>
      subst hb
      exact heard_timeout (h.heard b)
  · exact h.heard b

/-- **Step lemma.**  Every event keeps the account. -/
theorem sound_step (h : s.Sound fmt) {e : Event P} (he : e.Ok fmt) {s' : Net P}
    (hstep : s.step fmt e = some s') : s'.Sound fmt := by
  cases e with
  | writePkg a p peerAddr =>
      simp only [Net.step] at hstep
      split at hstep
      · cases hstep
        exact h
      · next b hsend =>
          cases hstep
          refine sound_put h fun q hq => ?_
          cases hq
          refine ⟨he, ?_⟩
          unfold send at hsend
          split at hsend
          · cases hsend
          · split at hsend
            · next hle => exact hle
            · cases hsend
          · split at hsend
            · next hle => exact hle
            · cases hsend
  | connectPing a =>
      simp only [Net.step] at hstep
      split at hstep
      · cases hstep
        exact sound_put h fun q hq => by cases hq
      · cases hstep
  | deliver i =>
      simp only [Net.step] at hstep
      split at hstep
      · next d hi =>
          cases hstep
          exact sound_arrive h hi
      · cases hstep
  | lose i =>
      simp only [Net.step] at hstep
      split at hstep
      · next d hi =>
          cases hstep
          refine ⟨?_, h.copies, h.good, h.heard⟩
          refine (h.account.trans (perm_eraseIdx hi)).trans (List.Perm.append_left _ ?_)
          rw [List.append_assoc]
          exact List.perm_middle.symm
      · cases hstep
  | copy i =>
      simp only [Net.step] at hstep
      split at hstep
      · next d hi =>
          cases hstep
          have hwritten := h.mem_written (List.mem_append_left _ (List.mem_of_getElem? hi))
          refine ⟨?_, ?_, h.good, h.heard⟩
          · dsimp only
            rw [← List.append_assoc, List.append_assoc s.flight]
            exact (List.perm_append_singleton d _).trans
              ((h.account.cons d).trans List.perm_middle.symm)
          · intro x hx
            rcases List.mem_append.mp hx with hx | hx
            · exact h.copies x hx
            · rw [List.mem_singleton.mp hx]
              exact hwritten
      · cases hstep
  | timeout a =>
      simp only [Net.step, Option.some.injEq] at hstep
      rw [← hstep]
      exact sound_timeout h a

/-- **Run lemma.** -/
theorem sound_run (h : s.Sound fmt) {es : List (Event P)} (hes : ∀ e ∈ es, e.Ok fmt)
    {s' : Net P} (hrun : s.run fmt es = some s') : s'.Sound fmt := by
  induction es generalizing s with
  | nil =>
      cases hrun
      exact h
  | cons e es ih =>
      rw [Net.run] at hrun
      obtain ⟨s₁, hstep, hrest⟩ := Option.bind_eq_some_iff.mp hrun
      exact ih (sound_step h (hes e (List.mem_cons_self ..)) hstep)
        (fun x hx => hes x (List.mem_cons_of_mem e hx)) hrest

private theorem contexts_subperm (m : Int) (a : Nat) {ds es : List (Packet P)} (h : ds.Subperm es) :
    (contexts fmt m a ds).Subperm (contexts fmt m a es) := by
  obtain ⟨l, hl, hsub⟩ := h
  exact ⟨contexts fmt m a l, (hl.filter _).filterMap _, (hsub.filter _).filterMap _⟩

end Account

/-- **UDP sessions are as good as the network.**  Any sessions write any packages of a
format to each other, in any order with the steps of the network and the receive loops.
Every receive loop goes on.  A listener gets only packages that were written to its session
by the session at the address that comes with them, whole and unchanged, and never a connect
ping.  As long as the network copies nothing, it gets none of them twice; and when the
network also loses nothing and has delivered everything, it has got all that were written to
it, but for those above its limit. -/
theorem udp_network (fmt : Format P) (kind : Nat → Kind) (maxMsgLen : Nat → Int)
    (es : List (Event P)) (hes : ∀ e ∈ es, e.Ok fmt) (s : Net P)
    (hrun : (Net.init kind maxMsgLen).run fmt es = some s) (a : Nat) :
    (∃ st, (s.node a).loop = .blocked st) ∧
    (∀ m ∈ s.messages a, ∃ p b, m = ⟨some p, b⟩ ∧ ⟨b, a, .pkg p⟩ ∈ s.written) ∧
    (s.copied = [] → (s.messages a).Subperm (s.expected fmt a)) ∧
    (s.copied = [] → s.lost = [] → s.flight = [] →
      (s.messages a).Perm (s.expected fmt a)) := by
  have h : s.Sound fmt := sound_run (sound_init kind maxMsgLen) hes hrun
  obtain ⟨st, hloop, hmsg⟩ := h.heard a
  have hmessages : s.messages a = contexts fmt (s.node a).maxMsgLen a s.received := by
    rw [Net.messages, hloop]
    exact hmsg
  refine ⟨⟨st, hloop⟩, fun m hm => ?_, fun hcopied => ?_, fun hcopied hlost hflight => ?_⟩
  · rw [hmessages] at hm
    obtain ⟨d, hd, hctx⟩ := List.mem_filterMap.mp hm
    obtain ⟨hd, hdst⟩ := List.mem_filter.mp hd
    have hwritten := h.mem_written (List.mem_append_right _ (List.mem_append_right _ hd))
    obtain ⟨src, dst, body⟩ := d
    cases body with
    | ping => simp [Packet.context] at hctx
    | pkg p =>
        simp only [Packet.context] at hctx
        split at hctx
        · cases hctx
          rw [beq_iff_eq] at hdst
          cases hdst
          exact ⟨p, src, rfl, hwritten⟩
        · cases hctx
  · have hsub : s.received.Subperm s.written := by
      have := h.account
      rw [hcopied, List.append_nil] at this
      exact (List.sublist_append_right _ _).subperm.trans
        ((List.sublist_append_right _ _).subperm.trans this.symm.subperm)
    rw [hmessages]
    exact contexts_subperm _ a hsub
  · have hperm : s.received.Perm s.written := by
      have := h.account
      rw [hcopied, hlost, hflight, List.append_nil] at this
      exact this.symm
    rw [hmessages]
    exact (hperm.filter _).filterMap _

/-- Every datagram is a package. -/
def rawPackages : Format Bytes where
  write := id
  read data := ⟨some data, data.length, none⟩
  ok := Decodes
  decodes _ h := h
  exact _ _ := rfl

/-- An endpoint at address 0 with a limit of 3 bytes, and its clients. -/
def oneEndpoint : Net Bytes :=
  Net.init (fun a => if a = 0 then .endpoint else .client 0) fun _ => 3

/-- Two clients write, one of them a package that is too long; the endpoint answers the
other one, and forgets the address in a second answer. -/
def conversation : List (Event Bytes) :=
  [.connectPing 1, .writePkg 1 [1, 2] none, .writePkg 2 [3, 4, 5, 6] none, .deliver 2, .deliver 1,
    .timeout 0, .deliver 0, .writePkg 0 [9] (some 1), .writePkg 0 [9] none, .deliver 0]

/-- The endpoint gets the one package within its limit, and the client gets its answer. -/
theorem udp_network_conversation :
    ∃ s, oneEndpoint.run rawPackages conversation = some s ∧ s.messages 0 = [⟨some [1, 2], 1⟩] ∧
      s.written.length = 4 ∧ (s.messages 1).Perm [⟨some [9], 0⟩] := by
  obtain ⟨s, hrun⟩ : ∃ s, oneEndpoint.run rawPackages conversation = some s := ⟨_, rfl⟩
  have hes : ∀ e ∈ conversation, e.Ok rawPackages := by
    simp only [conversation, List.forall_mem_cons, Event.Ok]
    exact ⟨trivial, (by decide : Decodes [1, 2]), (by decide : Decodes [3, 4, 5, 6]), trivial,
      trivial, trivial, trivial, (by decide : Decodes [9]), (by decide : Decodes [9]), trivial,
      List.forall_mem_nil _⟩
  have hmain := udp_network rawPackages (fun a => if a = 0 then .endpoint else .client 0)
    (fun _ => 3) conversation hes s hrun 1
  have hbooks : (oneEndpoint.run rawPackages conversation).map (fun s =>
      (s.copied, s.lost, s.flight, s.written.length, s.messages 0, s.expected rawPackages 1)) =
      some ([], [], [], 4, [⟨some [1, 2], 1⟩], [⟨some [9], 0⟩]) := rfl
  rw [hrun] at hbooks
  simp only [Option.map_some, Option.some.injEq, Prod.mk.injEq] at hbooks
  obtain ⟨hcopied, hlost, hflight, hwritten, hzero, hone⟩ := hbooks
  refine ⟨s, hrun, hzero, hwritten, ?_⟩
  rw [← hone]
  exact hmain.2.2.2 hcopied hlost hflight

end Getty.Transport.Udp
