import Getty.Transport.UdpReadLoop

/-!
# The size limit of the UDP loop

The receive buffer is sized once, from the limit at the start of the loop, and a
datagram that does not fit is cut off without an error.  The size check sees what is
left of it, and compares it with the limit of that moment.

For a limit that stays the same the buffer is longer than the limit, or longer than any
datagram, so that a cut datagram is still too long.  This depends on nobody raising the
limit to the size of the buffer, or removing it, while the loop is running.

## Main results

* `loop_messages` — what reaches `OnMessage` are the datagrams the loop dispatches.
* `udpReadBufferSize_toInt` — the buffer size does not overflow.
* `udp_filter_exact` — with a fixed limit exactly the datagrams within it are dispatched.
* `no_truncated_datagram_iff` — which changes of the limit never let a cut datagram pass.
-/

namespace Getty.Transport.Udp

variable {P : Type}

/-! ## What the loop dispatches -/

/-- The package that the listener gets. -/
def Dispatch.message (env : Env P) (size : Nat) (d : Dispatch) : UDPContext P :=
  ⟨(env.read d.call (d.payload.take size)).pkg, d.addr⟩

/-- The bytes are decoded without an error, within the limit and to a package of nonzero
length. -/
def Accepts (env : Env P) (k : Nat) (buf : Bytes) : Prop :=
  Decodes buf ∧ checkDatagram env k buf = none ∧ (env.read k buf).pkgLen ≠ 0

instance (env : Env P) (k : Nat) (buf : Bytes) : Decidable (Accepts env k buf) :=
  inferInstanceAs (Decidable (_ ∧ _))

theorem checkDatagram_eq_none {env : Env P} {k : Nat} {buf : Bytes} :
    checkDatagram env k buf = none ↔
      (env.read k buf).err = none ∧ (env.maxMsgLen k 0 ≤ 0 ∨ buf.length ≤ env.maxMsgLen k 1) := by
  unfold checkDatagram
  cases (env.read k buf).err with
  | some msg => simp
  | none =>
      dsimp only
      split
      · simp only [reduceCtorEq, true_and, false_iff]
        omega
      · simp only [true_and, true_iff]
        omega

/-- What one receive result leads to after `k` calls of the `Reader`. -/
def dispatch (env : Env P) (size k : Nat) : Recv → Option Dispatch
  | .failed _ => none
  | .datagram payload addr =>
      if Accepts env k (payload.take size) then some ⟨k, payload, addr⟩ else none

/-- The calls of the `Reader` that one receive result leads to. -/
def readCalls (size : Nat) : Recv → Nat
  | .failed _ => 0
  | .datagram payload _ => if Decodes (payload.take size) then 1 else 0

/-- The datagrams that a run dispatches. -/
def dispatches (env : Env P) (size : Nat) : List Round → Nat → List Dispatch
  | [], _ => []
  | r :: rs, k =>
      if r.closed then []
      else
        match r.recv with
        | .failed .timeout => dispatches env size rs k
        | .failed _ => []
        | .datagram payload addr =>
            (dispatch env size k (.datagram payload addr)).toList ++
              dispatches env size rs (k + readCalls size (.datagram payload addr))

/-- The packages that have reached `OnMessage`. -/
def Outcome.messages : Outcome P → List (UDPContext P)
  | .returned _ messages => messages
  | .blocked st => st.messages

/-- What a run hands to the listener: of the dispatched datagrams those that find the
session open. -/
def delivered (env : Env P) (size : Nat) (ds : List Dispatch) : List (UDPContext P) :=
  (ds.filter fun d => env.taskOpen d.call).map (Dispatch.message env size)

private theorem delivered_append (env : Env P) (size : Nat) (ds es : List Dispatch) :
    delivered env size (ds ++ es) = delivered env size ds ++ delivered env size es := by
  rw [delivered, List.filter_append, List.map_append]
  rfl

/-- **Step lemma.**  One datagram. -/
theorem handleDatagram_messages (env : Env P) (size : Nat) (payload : Bytes) (addr : Nat)
    (st : State P) :
    (handleDatagram env (payload.take size) addr st).messages =
      st.messages ++
        delivered env size (dispatch env size st.reads (.datagram payload addr)).toList := by
  simp only [handleDatagram, dispatch]
  by_cases hdec : Decodes (payload.take size)
  · rw [if_pos hdec]
    cases hcheck : checkDatagram env st.reads (payload.take size) with
    | some e => simp [Accepts, hcheck, delivered]
    | none =>
        by_cases hlen : (env.read st.reads (payload.take size)).pkgLen = 0
        · simp [Accepts, hlen, delivered]
        · have hacc : Accepts env st.reads (payload.take size) := ⟨hdec, hcheck, hlen⟩
          rw [if_neg hlen, if_pos hacc]
          cases hopen : env.taskOpen st.reads with
          | true => simp [addTask, delivered, hopen, Dispatch.message]
          | false => simp [addTask, delivered, hopen]
  · rw [if_neg hdec]
    simp [Accepts, hdec, delivered]

/-- **Run lemma.**  What reaches `OnMessage` are the dispatched datagrams, in order. -/
theorem loop_messages (env : Env P) (size : Nat) (rs : List Round) (st : State P) :
    (loop env size rs st).messages =
      st.messages ++ delivered env size (dispatches env size rs st.reads) := by
  induction rs generalizing st with
  | nil => simp [loop, Outcome.messages, dispatches, delivered]
  | cons r rs ih =>
      simp only [loop, dispatches]
      cases r.closed with
      | true => simp [Outcome.messages, delivered]
      | false =>
          simp only [Bool.false_eq_true, if_false]
          cases r.recv with
          | failed e =>
              cases e with
              | timeout => exact ih _
              | eof => simp [Outcome.messages, delivered]
              | other msg => simp [Outcome.messages, delivered]
          | datagram payload addr =>
              dsimp only
              rw [ih, handleDatagram_messages, handleDatagram_reads, delivered_append,
                List.append_assoc]
              rfl

/-- The packages that `handleUDPPackage` hands to the listener. -/
theorem handleUDPPackage_messages (env : Env P) (maxMsgLen : Int) (rounds : List Round) :
    (handleUDPPackage env maxMsgLen rounds).messages =
      delivered env (udpReadBufferSize maxMsgLen).toNat
        (dispatches env (udpReadBufferSize maxMsgLen).toNat rounds 0) := by
  rw [handleUDPPackage, loop_messages]
  rfl

/-! ## The size of the buffer -/

/-- `udpReadBufferSize` as the machine computes it: an `int32` limit, sums and products in
`int64`. -/
def udpReadBufferSizeInt64 (maxMsgLen : Int32) : Int64 :=
  if maxMsgLen ≤ 0 then 65536
  else
    let bufferSize := maxMsgLen.toInt64 + 4096
    let doubledMaxMsgLen := maxMsgLen.toInt64 * 2
    let bufferSize := if doubledMaxMsgLen < bufferSize then doubledMaxMsgLen else bufferSize
    if 65536 < bufferSize then 65536 else bufferSize

/-- The longest datagram. -/
def maxDatagramLen : Nat := 65507

private theorem toInt64_add_toInt (m : Int32) : (m.toInt64 + 4096).toInt = m.toInt + 4096 := by
  have hlt := m.toInt_lt
  have hle := m.le_toInt
  have h4096 : (4096 : Int64).toInt = 4096 := by decide
  rw [Int64.toInt_add, Int32.toInt_toInt64, h4096]
  apply Int.bmod_eq_of_le <;> omega

private theorem toInt64_double_toInt (m : Int32) : (m.toInt64 * 2).toInt = m.toInt * 2 := by
  have hlt := m.toInt_lt
  have hle := m.le_toInt
  have h2 : (2 : Int64).toInt = 2 := by decide
  rw [Int64.toInt_mul, Int32.toInt_toInt64, h2]
  apply Int.bmod_eq_of_le <;> omega

/-- **No overflow.**  The machine computes the size that the loop is modelled with. -/
theorem udpReadBufferSize_toInt (m : Int32) :
    (udpReadBufferSizeInt64 m).toInt = udpReadBufferSize m.toInt := by
  have hzero : (0 : Int32).toInt = 0 := by decide
  have hmax : (65536 : Int64).toInt = 65536 := by decide
  simp only [udpReadBufferSizeInt64, udpReadBufferSize, maxUDPReadBufferSize, maxReadBufLen,
    apply_ite Int64.toInt, Int32.le_iff_toInt_le, Int64.lt_iff_toInt_lt, toInt64_add_toInt,
    toInt64_double_toInt, hzero, hmax]
  rfl

/-- The size of the buffer for a positive limit, without the case split. -/
theorem udpReadBufferSize_eq_min {m : Int} (hm : 0 < m) :
    udpReadBufferSize m = min (min (m * 2) (m + 4096)) 65536 := by
  have hread : (maxReadBufLen : Int) = 4096 := rfl
  have hmax : maxUDPReadBufferSize = 65536 := rfl
  rw [udpReadBufferSize, if_neg (by omega), hread, hmax]
  by_cases hdouble : m * 2 < m + 4096
  · simp only [if_pos hdouble]
    split <;> omega
  · simp only [if_neg hdouble]
    split <;> omega

theorem udpReadBufferSize_bounds (m : Int) :
    2 ≤ udpReadBufferSize m ∧ udpReadBufferSize m ≤ 65536 := by
  by_cases hm : m ≤ 0
  · rw [udpReadBufferSize, if_pos hm]
    decide
  · rw [udpReadBufferSize_eq_min (by omega)]
    omega

/-- **The buffer is longer than the limit**, or than any datagram. -/
theorem lt_udpReadBufferSize (m : Int) :
    m < udpReadBufferSize m ∨ (maxDatagramLen : Int) < udpReadBufferSize m := by
  by_cases hm : m ≤ 0
  · have hlow := (udpReadBufferSize_bounds m).1
    omega
  · rw [udpReadBufferSize_eq_min (by omega)]
    show m < _ ∨ (65507 : Int) < _
    omega

/-! ## A limit that stays the same -/

/-- The limit is `m` whenever it is read. -/
def fixedLimit (m : Int) : Nat → Fin 3 → Int := fun _ _ => m

/-- A datagram within the limit fits in the buffer. -/
theorem take_of_within {m : Int} {payload : Bytes} (hmax : payload.length ≤ maxDatagramLen)
    (hwithin : m ≤ 0 ∨ (payload.length : Int) ≤ m) :
    payload.take (udpReadBufferSize m).toNat = payload := by
  apply List.take_of_length_le
  rcases hwithin with hm | hle
  · have hsize : udpReadBufferSize m = 65536 := by rw [udpReadBufferSize, if_pos hm]; rfl
    rw [hsize]
    exact Nat.le_trans hmax (by decide)
  · have hlow := lt_udpReadBufferSize m
    omega

/-- A datagram above the limit still is when it is cut off. -/
theorem lt_length_take {m : Int} {payload : Bytes} (hm : 0 < m)
    (hmax : payload.length ≤ maxDatagramLen) (hlong : m < payload.length) :
    m < (payload.take (udpReadBufferSize m).toNat).length := by
  have hlow := lt_udpReadBufferSize m
  rw [List.length_take]
  omega

/-- **The size filter is exact** for a fixed limit: the buffer has between 2 and 65536
bytes and is computed without an overflow, a datagram within the limit is decoded whole,
and a round of `handleUDPPackage` hands one that the `Reader` accepts to `addTask` when, and
only when, it is within the limit.  What the loop dispatches on an open session is what the
listener gets. -/
theorem udp_filter_exact (m : Int32) :
    ((udpReadBufferSizeInt64 m).toInt = udpReadBufferSize m.toInt ∧
      2 ≤ udpReadBufferSize m.toInt ∧ udpReadBufferSize m.toInt ≤ 65536) ∧
    (∀ (P : Type) (env : Env P) (rounds : List Round),
      (handleUDPPackage env m.toInt rounds).messages =
        delivered env (udpReadBufferSize m.toInt).toNat
          (dispatches env (udpReadBufferSize m.toInt).toNat rounds 0)) ∧
    ∀ (P : Type) (read : Nat → Bytes → ReadResult P) (taskOpen : Nat → Bool) (st : State P)
      (addr : Nat) (payload : Bytes),
      1 ≤ payload.length → payload.length ≤ maxDatagramLen → payload ≠ connectPingPackage →
      ((m.toInt ≤ 0 ∨ (payload.length : Int) ≤ m.toInt) →
        payload.take (udpReadBufferSize m.toInt).toNat = payload ∧ Decodes payload) ∧
      ((read st.reads (payload.take (udpReadBufferSize m.toInt).toNat)).err = none →
        (read st.reads (payload.take (udpReadBufferSize m.toInt).toNat)).pkgLen ≠ 0 →
        ((dispatch ⟨read, fixedLimit m.toInt, taskOpen⟩ (udpReadBufferSize m.toInt).toNat st.reads
            (.datagram payload addr)).isSome ↔
          m.toInt ≤ 0 ∨ (payload.length : Int) ≤ m.toInt) ∧
        (handleDatagram ⟨read, fixedLimit m.toInt, taskOpen⟩
            (payload.take (udpReadBufferSize m.toInt).toNat) addr st).messages =
          if m.toInt ≤ 0 ∨ (payload.length : Int) ≤ m.toInt then
            addTask (taskOpen st.reads) ⟨(read st.reads payload).pkg, addr⟩ st.messages
          else st.messages) := by
  refine ⟨⟨udpReadBufferSize_toInt m, udpReadBufferSize_bounds m.toInt⟩,
    fun P env rounds => handleUDPPackage_messages env _ rounds, ?_⟩
  intro P read taskOpen st addr payload hpos hmax hping
  have hdec : Decodes payload := ⟨List.ne_nil_of_length_pos hpos, hping⟩
  refine ⟨fun hwithin => ⟨take_of_within hmax hwithin, hdec⟩, fun herr hlen => ?_⟩
  rw [handleDatagram_messages]
  by_cases hwithin : m.toInt ≤ 0 ∨ (payload.length : Int) ≤ m.toInt
  · have htake := take_of_within hmax hwithin
    rw [htake] at herr hlen
    have hacc : Accepts ⟨read, fixedLimit m.toInt, taskOpen⟩ st.reads payload :=
      ⟨hdec, checkDatagram_eq_none.mpr ⟨herr, hwithin⟩, hlen⟩
    refine ⟨by simp [dispatch, htake, hacc, hwithin], ?_⟩
    rw [if_pos hwithin, addTask]
    cases hopen : taskOpen st.reads with
    | true => simp [dispatch, htake, hacc, delivered, hopen, Dispatch.message]
    | false => simp [dispatch, htake, hacc, delivered, hopen]
  · have hcut := lt_length_take (by omega) hmax (show m.toInt < payload.length by omega)
    have hacc : ¬ Accepts ⟨read, fixedLimit m.toInt, taskOpen⟩ st.reads
        (payload.take (udpReadBufferSize m.toInt).toNat) := by
      rintro ⟨-, hcheck, -⟩
      rcases (checkDatagram_eq_none.mp hcheck).2 with hzero | hle
      · exact hwithin (Or.inl hzero)
      · exact absurd hcut (Int.not_lt.mpr hle)
    refine ⟨by simp [dispatch, hacc, hwithin], ?_⟩
    rw [if_neg hwithin]
    simp [dispatch, hacc, delivered]

/-- At a limit of 10 bytes a datagram of 10 is dispatched, and one of 11 is not. -/
theorem udp_filter_exact_ten :
    (handleDatagram ⟨fun _ data => ⟨some data.length, data.length, none⟩, fixedLimit 10,
        fun _ => true⟩ ((List.replicate 10 7).take (udpReadBufferSize 10).toNat) 1
        State.init).messages = [⟨some 10, 1⟩] ∧
    (handleDatagram ⟨fun _ data => ⟨some data.length, data.length, none⟩, fixedLimit 10,
        fun _ => true⟩ ((List.replicate 11 7).take (udpReadBufferSize 10).toNat) 1
        State.init).messages = [] := by
  have hexact := fun payload => (udp_filter_exact 10).2.2 Nat
    (fun _ data => ⟨some data.length, data.length, none⟩) (fun _ => true) State.init 1 payload
  have hten := hexact (List.replicate 10 7) (by decide) (by decide) (by decide)
  have heleven := hexact (List.replicate 11 7) (by decide) (by decide) (by decide)
  exact ⟨(hten.2 rfl (by decide)).2, (heleven.2 rfl (by decide)).2⟩

/-! ## A limit that changes -/

/-- The limits that the loop reads when `set k i` is the argument of the last
`SetMaxMsgLen` before the read. -/
def storedLimit (set : Nat → Fin 3 → Int) : Nat → Fin 3 → Int :=
  fun k i => normalizeMsgLen (set k i)

/-- The datagrams are as long as datagrams can be. -/
def Datagrams (rounds : List Round) : Prop :=
  ∀ r ∈ rounds, ∀ payload addr, r.recv = .datagram payload addr →
    payload.length ≤ maxDatagramLen

/-- **Step lemma.**  A dispatched datagram passed the size check as the buffer has it. -/
theorem dispatch_within {env : Env P} {size k : Nat} {payload : Bytes} {addr : Nat}
    {d : Dispatch} (h : d ∈ (dispatch env size k (.datagram payload addr)).toList) :
    d.payload = payload ∧ (env.maxMsgLen d.call 0 ≤ 0 ∨
      ((d.payload.take size).length : Int) ≤ env.maxMsgLen d.call 1) := by
  simp only [dispatch, Option.mem_toList] at h
  split at h
  · rename_i hacc
    cases h
    exact ⟨rfl, (checkDatagram_eq_none.mp hacc.2.1).2⟩
  · cases h

/-- **Run lemma.**  The same for everything that a run dispatches. -/
theorem dispatches_within {env : Env P} {size : Nat} {rounds : List Round} {k : Nat}
    {d : Dispatch} (hrounds : Datagrams rounds) (h : d ∈ dispatches env size rounds k) :
    d.payload.length ≤ maxDatagramLen ∧ (env.maxMsgLen d.call 0 ≤ 0 ∨
      ((d.payload.take size).length : Int) ≤ env.maxMsgLen d.call 1) := by
  induction rounds generalizing k with
  | nil => cases h
  | cons r rs ih =>
      have hrs : Datagrams rs := fun r' hr' => hrounds r' (List.mem_cons_of_mem r hr')
      simp only [dispatches] at h
      split at h
      · cases h
      · cases hrecv : r.recv with
        | failed e =>
            rw [hrecv] at h
            cases e with
            | timeout => exact ih hrs h
            | eof => cases h
            | other msg => cases h
        | datagram payload addr =>
            rw [hrecv] at h
            rcases List.mem_append.mp h with hhere | hlater
            · obtain ⟨hpayload, hlimit⟩ := dispatch_within hhere
              refine ⟨?_, hlimit⟩
              rw [hpayload]
              exact hrounds r (List.mem_cons_self ..) payload addr hrecv
            · exact ih hrs hlater

/-- A `Reader` that rejects everything but its call number `k`. -/
def acceptOnly (k : Nat) : Nat → Bytes → ReadResult Unit := fun j _ =>
  if j = k then ⟨some (), 1, none⟩ else ⟨none, 0, some "rejected"⟩

/-- Datagrams of one byte more than the buffer holds. -/
def tooLong (size : Nat) : Bytes := List.replicate (size + 1) 0

theorem tooLong_take (size : Nat) : (tooLong size).take size = List.replicate size 0 := by
  rw [tooLong, List.take_replicate]
  congr 1
  omega

private theorem decodes_zeros {size : Nat} (h : 2 ≤ size) : Decodes (List.replicate size 0) := by
  refine ⟨List.ne_nil_of_length_pos (by rw [List.length_replicate]; omega), fun hping => ?_⟩
  have hc : (99 : UInt8) ∈ List.replicate size (0 : UInt8) := by
    rw [hping]
    decide
  have := List.eq_of_mem_replicate hc
  cases this

/-- The cut datagram is dispatched at the `Reader` call that accepts it, when the limit
lets it through. -/
private theorem tooLong_dispatched {limit : Nat → Fin 3 → Int} {size k : Nat} (hsize : 2 ≤ size)
    (hpass : ¬ (0 < limit k 0 ∧ limit k 1 < size)) (n j : Nat) (hk : j + n = k) :
    ⟨k, tooLong size, 0⟩ ∈
      dispatches ⟨acceptOnly k, limit, fun _ => true⟩ size
        (List.replicate (n + 1) ⟨false, .datagram (tooLong size) 0⟩) j := by
  have hdec := decodes_zeros hsize
  induction n generalizing j with
  | zero =>
      obtain rfl : j = k := hk
      apply List.mem_append_left
      have hacc : Accepts (⟨acceptOnly j, limit, fun _ => true⟩ : Env Unit) j
          (List.replicate size 0) := by
        refine ⟨hdec, checkDatagram_eq_none.mpr ⟨by simp [acceptOnly], ?_⟩, by simp [acceptOnly]⟩
        rw [List.length_replicate]
        show limit j 0 ≤ 0 ∨ (size : Int) ≤ limit j 1
        omega
      rw [dispatch, tooLong_take, if_pos hacc]
      exact List.mem_singleton.mpr rfl
  | succ n ih =>
      rw [List.replicate_succ]
      apply List.mem_append_right
      have hreads : readCalls size (.datagram (tooLong size) 0) = 1 := by
        rw [readCalls, tooLong_take, if_pos hdec]
      rw [hreads]
      exact ih (j + 1) (by omega)

/-- **No cut datagram is dispatched**, whatever the `Reader` and the datagrams are, exactly
when the buffer of the loop holds every datagram or stays longer than each limit that a
size check meets.  The buffer is the one for the limit at the start of the loop; what it
dispatches on an open session is what the listener gets. -/
theorem no_truncated_datagram_iff (start : Int) (set : Nat → Fin 3 → Int) :
    (∀ (P : Type) (read : Nat → Bytes → ReadResult P) (taskOpen : Nat → Bool)
        (rounds : List Round),
        (handleUDPPackage ⟨read, storedLimit set, taskOpen⟩ (normalizeMsgLen start)
            rounds).messages =
          delivered ⟨read, storedLimit set, taskOpen⟩
            (udpReadBufferSize (normalizeMsgLen start)).toNat
            (dispatches ⟨read, storedLimit set, taskOpen⟩
              (udpReadBufferSize (normalizeMsgLen start)).toNat rounds 0)) ∧
    ((∀ (P : Type) (read : Nat → Bytes → ReadResult P) (taskOpen : Nat → Bool)
        (rounds : List Round), Datagrams rounds →
        ∀ d ∈ dispatches ⟨read, storedLimit set, taskOpen⟩
            (udpReadBufferSize (normalizeMsgLen start)).toNat rounds 0,
          d.Whole (storedLimit set) (udpReadBufferSize (normalizeMsgLen start)).toNat) ↔
      (maxDatagramLen : Int) ≤ udpReadBufferSize (normalizeMsgLen start) ∨
        ∀ k, 0 < storedLimit set k 0 ∧
          storedLimit set k 1 < udpReadBufferSize (normalizeMsgLen start)) := by
  refine ⟨fun P read taskOpen rounds => handleUDPPackage_messages _ _ rounds, ?_⟩
  obtain ⟨hlow, -⟩ := udpReadBufferSize_bounds (normalizeMsgLen start)
  have hnonneg : 0 ≤ udpReadBufferSize (normalizeMsgLen start) := by omega
  obtain ⟨size, hsize⟩ := Int.eq_ofNat_of_zero_le hnonneg
  rw [hsize, Int.toNat_natCast]
  rw [hsize] at hlow
  constructor
  · intro hwhole
    by_cases hall : (maxDatagramLen : Int) ≤ size
    · exact Or.inl hall
    refine Or.inr fun k => Decidable.byContradiction fun hk => ?_
    have hrounds : Datagrams (List.replicate (k + 1) ⟨false, .datagram (tooLong size) 0⟩) := by
      intro r hr payload addr hrecv
      rw [List.eq_of_mem_replicate hr] at hrecv
      cases hrecv
      rw [tooLong, List.length_replicate]
      omega
    have hmem := tooLong_dispatched (by omega) hk k 0 (Nat.zero_add k)
    have hcut := (hwhole Unit (acceptOnly k) (fun _ => true) _ hrounds _ hmem).1
    have hlen := congrArg List.length hcut
    rw [tooLong_take] at hlen
    simp only [tooLong, List.length_replicate] at hlen
    omega
  · intro hcond P read taskOpen rounds hrounds d hd
    obtain ⟨hmax, hlimit⟩ := dispatches_within hrounds hd
    have hfits : d.payload.length ≤ size := by
      rcases hcond with hall | hlimits
      · omega
      · obtain ⟨hpos, hlt⟩ := hlimits d.call
        rw [List.length_take] at hlimit
        simp only at hlimit
        omega
    have htake := List.take_of_length_le hfits
    rw [htake] at hlimit
    exact ⟨htake, hlimit⟩

/-- At a limit that stays at 10 bytes nothing is cut. -/
theorem no_truncated_datagram_iff_ten :
    Dispatch.Whole (storedLimit fun _ _ => 10) (udpReadBufferSize (normalizeMsgLen 10)).toNat
      ⟨0, List.replicate 10 7, 1⟩ := by
  have hlimit : 0 < normalizeMsgLen 10 ∧
      normalizeMsgLen 10 < udpReadBufferSize (normalizeMsgLen 10) := by decide
  refine (no_truncated_datagram_iff 10 fun _ _ => 10).2.mpr (Or.inr fun _ => hlimit) Nat
    (fun _ data => ⟨some data.length, data.length, none⟩) (fun _ => true)
    [⟨false, .datagram (List.replicate 10 7) 1⟩] ?_ _ (by decide)
  intro r hr payload addr hrecv
  rw [List.mem_singleton.mp hr] at hrecv
  cases hrecv
  decide

/-- Starting at a limit of 10 bytes the buffer has 20.  When the limit is removed, a
datagram of 30 bytes is dispatched as if it were the 20 that fit. -/
theorem truncated_datagram_dispatched :
    Datagrams [⟨false, .datagram (List.replicate 30 7) 1⟩] ∧
    handleUDPPackage ⟨fun _ data => ⟨some data.length, data.length, none⟩,
        storedLimit fun _ _ => 0, fun _ => true⟩
        (normalizeMsgLen 10) [⟨false, .datagram (List.replicate 30 7) 1⟩] =
      .blocked ⟨none, 1, [⟨some 20, 1⟩]⟩ ∧
    dispatches ⟨fun _ data => ⟨some data.length, data.length, none⟩,
        storedLimit fun _ _ => 0, fun _ => true⟩
        (udpReadBufferSize (normalizeMsgLen 10)).toNat
        [⟨false, .datagram (List.replicate 30 7) 1⟩] 0 =
      [⟨0, List.replicate 30 7, 1⟩] ∧
    ¬ Dispatch.Whole (storedLimit fun _ _ => 0) (udpReadBufferSize (normalizeMsgLen 10)).toNat
      ⟨0, List.replicate 30 7, 1⟩ := by
  refine ⟨?_, rfl, rfl, fun hwhole => ?_⟩
  · intro r hr payload addr hrecv
    rw [List.mem_singleton.mp hr] at hrecv
    cases hrecv
    decide
  · exact absurd hwhole.1 (by decide)

end Getty.Transport.Udp
