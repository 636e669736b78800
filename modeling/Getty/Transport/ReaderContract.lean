import Getty.Transport.TcpLimit
import Getty.Transport.UdpLimit
import Getty.Transport.WsReadLoop

/-!
# What the three receive loops make of a `Reader`'s result

The `Reader` may answer that it has a header but not yet a package: no package, a positive
length and no error.  The TCP and the websocket loop look at the package, and wait for more
data or for the next message.  The UDP loop looks at the length alone, and hands the missing
package to the listener.

## Main results

* `handleUDPPackage_missing_iff` — when the UDP loop hands on a missing package.
* `listener_gets_package_iff` — the three loops together.
-/

namespace Getty.Transport

variable {P : Type}

/-- The results that the documentation of `Reader` allows. -/
inductive Contract : ReadResult P → Prop where
  /-- An error was found. -/
  | failed (msg : String) : Contract ⟨none, 0, some msg⟩
  /-- The header of a package is not complete. -/
  | noHeader : Contract ⟨none, 0, none⟩
  /-- The header is complete, its package is not. -/
  | headerOnly {pkgLen : Int} (h : 0 < pkgLen) : Contract ⟨none, pkgLen, none⟩
  | complete {pkg : P} {pkgLen : Int} (h : 0 < pkgLen) : Contract ⟨some pkg, pkgLen, none⟩

/-- The `Reader` has seen a header only. -/
def ReadResult.HeaderOnly (r : ReadResult P) : Prop :=
  r.pkg = none ∧ 0 < r.pkgLen ∧ r.err = none

/-- By the contract, a missing package of nonzero length comes with a header. -/
theorem Contract.headerOnly_of_missing {r : ReadResult P} (h : Contract r)
    (hpkg : r.pkg = none) (hlen : r.pkgLen ≠ 0) : r.HeaderOnly := by
  cases h with
  | failed msg => exact absurd rfl hlen
  | noHeader => exact absurd rfl hlen
  | headerOnly h => exact ⟨rfl, h, rfl⟩
  | complete h => cases hpkg

/-! ## TCP -/

/-- **Run lemma.**  Every dispatch of the TCP loop has a package. -/
theorem Tcp.trace_dispatch_isSome (env : Tcp.Env P) (fuel : Nat) (handshake : Option String)
    (rounds : List Tcp.Round) {k : Nat} {data : Bytes}
    (h : .dispatch k data ∈ Tcp.trace env fuel handshake rounds) :
    (env.read k data).pkg.isSome = true := by
  cases handshake with
  | some msg => cases h
  | none =>
      simp only [Tcp.trace] at h
      generalize (Tcp.State.init : Tcp.State P) = st at h
      induction rounds generalizing st with
      | nil => cases h
      | cons r rs ih =>
          simp only [Tcp.loopEvents] at h
          split at h
          · cases h
          rcases List.mem_append.mp h with hhere | hlater
          · by_cases hnil : r.recv.data = []
            · rw [Tcp.recvEvents, if_pos hnil] at hhere
              simp at hhere
            · obtain ⟨events, hevents, hrun⟩ := Tcp.recvRound_run env fuel st hnil
              rw [hevents] at hhere
              exact hrun.dispatch_isSome (by simpa using hhere)
          · cases hround : Tcp.recvRound env fuel r.recv st with
            | outOfFuel => rw [hround] at hlater; cases hlater
            | panicked ms => rw [hround] at hlater; cases hlater
            | ok st' =>
                rw [hround] at hlater
                dsimp only at hlater
                split at hlater
                · cases hlater
                · exact ih st' hlater

/-! ## Websocket -/

/-- What the websocket loop gives to `addTask` is not a missing package. -/
theorem Ws.item_ne_missing (env : Ws.Env P) (maxMsgLen : Int) (k : Nat) (pkg : Bytes) :
    env.item maxMsgLen k pkg ≠ some (.decoded none) := by
  unfold Ws.Env.item
  cases env.reader with
  | none => simp
  | some read =>
      dsimp only
      split
      · simp
      · split
        · simp
        · next hpkg =>
            intro heq
            cases hp : (read k pkg).pkg with
            | none => exact hpkg (by rw [hp]; rfl)
            | some p =>
                rw [hp] at heq
                cases heq

/-- One received message keeps the missing package away from the listener. -/
theorem Ws.receive_missing (env : Ws.Env P) (maxMsgLen : Int) (st : Ws.State P) (pkg : Bytes)
    (h : .decoded none ∉ st.messages) :
    .decoded none ∉ (st.receive env maxMsgLen pkg).messages := by
  simp only [Ws.State.receive]
  cases hitem : env.item maxMsgLen st.handed.length pkg with
  | none => exact h
  | some item =>
      have hne : item ≠ .decoded none := by
        intro heq
        exact Ws.item_ne_missing env maxMsgLen st.handed.length pkg (by rw [hitem, heq])
      simp only [addTask]
      split
      · simp only [List.mem_append, List.mem_singleton, not_or]
        exact ⟨h, Ne.symm hne⟩
      · exact h

/-- **Run lemma.**  The websocket loop never hands on a missing package. -/
theorem Ws.loop_missing (env : Ws.Env P) (rounds : List Ws.Round) (st : Ws.State P)
    (h : .decoded none ∉ st.messages) :
    .decoded none ∉ (Ws.loop env rounds st).state.messages := by
  induction rounds generalizing st with
  | nil => exact h
  | cons r rs ih =>
      simp only [Ws.loop]
      split
      · exact h
      · cases Ws.recv env.inflate env.readLimit r.maxMsgLen r.incoming with
        | ok pkg => exact ih _ (Ws.receive_missing env r.maxMsgLen st pkg h)
        | error err =>
            cases err with
            | timeout => exact ih st h
            | readLimit => exact h
            | other msg => exact h

/-! ## UDP -/

/-- The calls of the `Reader` in a run of the UDP loop. -/
def Udp.readerCalls (size : Nat) : List Udp.Round → Nat → List (Nat × Bytes)
  | [], _ => []
  | r :: rs, k =>
      if r.closed then []
      else
        match r.recv with
        | .failed .timeout => Udp.readerCalls size rs k
        | .failed _ => []
        | .datagram payload _ =>
            if Udp.Decodes (payload.take size) then
              (k, payload.take size) :: Udp.readerCalls size rs (k + 1)
            else Udp.readerCalls size rs k

/-- The dispatches of a run are its accepted calls. -/
theorem Udp.dispatches_calls (env : Udp.Env P) (size : Nat) (rs : List Udp.Round) (k : Nat) :
    (Udp.dispatches env size rs k).map (fun d => (d.call, d.payload.take size)) =
      (Udp.readerCalls size rs k).filter (fun c => Udp.Accepts env c.1 c.2) := by
  induction rs generalizing k with
  | nil => rfl
  | cons r rs ih =>
      simp only [Udp.dispatches, Udp.readerCalls]
      split
      · rfl
      · cases r.recv with
        | failed e =>
            cases e with
            | timeout => exact ih k
            | eof => rfl
            | other msg => rfl
        | datagram payload addr =>
            dsimp only
            rw [List.map_append, ih]
            by_cases hdec : Udp.Decodes (payload.take size)
            · simp only [Udp.readCalls, if_pos hdec]
              by_cases hacc : Udp.Accepts env k (payload.take size)
              · simp [Udp.dispatch, hacc]
              · simp [Udp.dispatch, hacc]
            · have hacc : ¬ Udp.Accepts env k (payload.take size) := fun h => hdec h.1
              simp [Udp.readCalls, hdec, Udp.dispatch, hacc]

theorem Udp.readerCalls_decodes {size : Nat} {rs : List Udp.Round} {k : Nat}
    {c : Nat × Bytes} (h : c ∈ Udp.readerCalls size rs k) : Udp.Decodes c.2 := by
  induction rs generalizing k with
  | nil => cases h
  | cons r rs ih =>
      simp only [Udp.readerCalls] at h
      split at h
      · cases h
      · split at h
        · exact ih h
        · cases h
        · split at h
          · next hdec =>
              rcases List.mem_cons.mp h with rfl | hlater
              · exact hdec
              · exact ih hlater
          · exact ih h

/-- **The UDP loop hands on a missing package** exactly when a `Reader` that follows the
contract has seen a header only, for a datagram within the limit and on an open session. -/
theorem Udp.handleUDPPackage_missing_iff (env : Udp.Env P)
    (hcontract : ∀ k data, Contract (env.read k data)) (start : Int) (rounds : List Udp.Round) :
    (∃ c ∈ (Udp.handleUDPPackage env start rounds).messages, c.pkg = none) ↔
      ∃ c ∈ Udp.readerCalls (Udp.udpReadBufferSize start).toNat rounds 0,
        (env.read c.1 c.2).HeaderOnly ∧ env.taskOpen c.1 = true ∧
          (env.maxMsgLen c.1 0 ≤ 0 ∨ (c.2.length : Int) ≤ env.maxMsgLen c.1 1) := by
  rw [Udp.handleUDPPackage_messages]
  generalize (Udp.udpReadBufferSize start).toNat = size
  have hcalls := Udp.dispatches_calls env size rounds 0
  constructor
  · rintro ⟨c, hc, hnone⟩
    obtain ⟨d, hd, rfl⟩ := List.mem_map.mp hc
    obtain ⟨hmem, hopen⟩ := List.mem_filter.mp hd
    have hcall : (d.call, d.payload.take size) ∈
        (Udp.readerCalls size rounds 0).filter (fun c => Udp.Accepts env c.1 c.2) := by
      rw [← hcalls]
      exact List.mem_map_of_mem hmem
    obtain ⟨hread, hacc⟩ := List.mem_filter.mp hcall
    obtain ⟨-, hcheck, hlen⟩ := of_decide_eq_true hacc
    exact ⟨_, hread, (hcontract _ _).headerOnly_of_missing hnone hlen, hopen,
      (Udp.checkDatagram_eq_none.mp hcheck).2⟩
  · rintro ⟨c, hc, ⟨hnone, hpos, herr⟩, hopen, hwithin⟩
    have hacc : Udp.Accepts env c.1 c.2 :=
      ⟨Udp.readerCalls_decodes hc, Udp.checkDatagram_eq_none.mpr ⟨herr, hwithin⟩, by omega⟩
    have hcall : c ∈ (Udp.dispatches env size rounds 0).map
        (fun d => (d.call, d.payload.take size)) := by
      rw [hcalls]
      exact List.mem_filter.mpr ⟨hc, decide_eq_true hacc⟩
    obtain ⟨d, hd, rfl⟩ := List.mem_map.mp hcall
    exact ⟨d.message env size, List.mem_map_of_mem (List.mem_filter.mpr ⟨hd, hopen⟩), hnone⟩

/-! ## The three loops -/

/-- **The listener gets a package**, for every `Reader` that follows the contract, from the
TCP and the websocket loop always, and from the UDP loop exactly when the `Reader` never
sees only a header in a datagram within the limit, on an open session. -/
theorem listener_gets_package_iff (read : Nat → Bytes → ReadResult P)
    (hcontract : ∀ k data, Contract (read k data)) :
    (∀ (maxMsgLen : Nat → Int) (taskOpen : Nat → Bool) (fuel : Nat) (handshake : Option String)
        (rounds : List Tcp.Round) (k : Nat) (data : Bytes),
      .dispatch k data ∈ Tcp.trace ⟨read, maxMsgLen, taskOpen⟩ fuel handshake rounds →
        (read k data).pkg ≠ none) ∧
    (∀ (inflate : Bytes → Option Bytes) (readLimit : Int) (taskOpen : Nat → Bool)
        (rounds : List Ws.Round),
      .decoded none ∉
        (Ws.handleWSPackage ⟨inflate, readLimit, some read, taskOpen⟩ rounds).state.messages) ∧
    ∀ (maxMsgLen : Nat → Fin 3 → Int) (taskOpen : Nat → Bool) (start : Int)
        (rounds : List Udp.Round),
      (∀ c ∈ (Udp.handleUDPPackage ⟨read, maxMsgLen, taskOpen⟩ start rounds).messages,
          c.pkg ≠ none) ↔
        ∀ c ∈ Udp.readerCalls (Udp.udpReadBufferSize start).toNat rounds 0,
          (read c.1 c.2).HeaderOnly → taskOpen c.1 = true →
            0 < maxMsgLen c.1 0 ∧ maxMsgLen c.1 1 < c.2.length := by
  refine ⟨?_, ?_, ?_⟩
  · intro maxMsgLen taskOpen fuel handshake rounds k data hmem hnone
    have hsome := Tcp.trace_dispatch_isSome _ fuel handshake rounds hmem
    rw [show (read k data).pkg = none from hnone] at hsome
    cases hsome
  · intro inflate readLimit taskOpen rounds
    exact Ws.loop_missing _ rounds Ws.State.init (by simp [Ws.State.init])
  · intro maxMsgLen taskOpen start rounds
    have hiff := Udp.handleUDPPackage_missing_iff ⟨read, maxMsgLen, taskOpen⟩ hcontract start
      rounds
    constructor
    · intro hall c hc hheader hopen
      apply Decidable.byContradiction
      intro hwithin
      obtain ⟨x, hx, hnone⟩ := hiff.mpr ⟨c, hc, hheader, hopen, by dsimp only; omega⟩
      exact hall x hx hnone
    · intro hall x hx hnone
      obtain ⟨c, hc, hheader, hopen, hwithin⟩ := hiff.mp ⟨x, hx, hnone⟩
      have := hall c hc hheader hopen
      dsimp only at hwithin
      omega

/-- A `Reader` for packages of one byte behind a header of one byte. -/
def pairReader : Nat → Bytes → ReadResult UInt8
  | _, [] => ⟨none, 0, none⟩
  | _, [_] => ⟨none, 2, none⟩
  | _, _ :: pkg :: _ => ⟨some pkg, 2, none⟩

theorem pairReader_contract (k : Nat) (data : Bytes) : Contract (pairReader k data) := by
  match data with
  | [] => exact Contract.noHeader
  | [_] => exact Contract.headerOnly (by decide)
  | _ :: pkg :: _ => exact Contract.complete (by decide)

/-- A datagram with a whole package in it is handed on as that package. -/
theorem listener_gets_package_pair :
    (∀ k data, Contract (pairReader k data)) ∧
      (Udp.handleUDPPackage ⟨pairReader, fun _ _ => 0, fun _ => true⟩ 0
        [⟨false, .datagram [1, 7] 3⟩]).messages = [⟨some 7, 3⟩] ∧
      ∀ c ∈ (Udp.handleUDPPackage ⟨pairReader, fun _ _ => 0, fun _ => true⟩ 0
        [⟨false, .datagram [1, 7] 3⟩]).messages, c.pkg ≠ none := by
  have h := (listener_gets_package_iff pairReader pairReader_contract).2.2 (fun _ _ => 0)
    (fun _ => true) 0 [⟨false, .datagram [1, 7] 3⟩]
  refine ⟨pairReader_contract, rfl, h.mpr ?_⟩
  rintro c hc ⟨hnone, -⟩ -
  have hcalls : Udp.readerCalls (Udp.udpReadBufferSize 0).toNat
      [⟨false, .datagram [1, 7] 3⟩] 0 = [(0, [1, 7])] := by decide
  rw [hcalls] at hc
  rw [List.mem_singleton.mp hc] at hnone
  cases hnone

/-- A datagram with the header alone reaches the listener without a package. -/
theorem missing_package_dispatched :
    (∀ k data, Contract (pairReader k data)) ∧
      Udp.handleUDPPackage ⟨pairReader, fun _ _ => 0, fun _ => true⟩ 0
          [⟨false, .datagram [1] 3⟩] =
        .blocked ⟨none, 1, [⟨none, 3⟩]⟩ :=
  ⟨pairReader_contract, rfl⟩

end Getty.Transport
