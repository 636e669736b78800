import Getty.Transport.SessionSteps
import Mathlib.Data.List.Sublists

/-!
# A session that the application rejects

`client.connect` hands every new session to the NewSessionCallback and, when that fails, closes
the socket it has dialed: it asks the session for it, with `ss.Conn().Close()`.  By then the
callback may have done anything to the session that its interface offers, and a reset takes the
connection away.

The callback is a list of operations, made one after the other on the goroutine of `connect`,
that ends by returning nil or an error or by a panic.  A call runs to its end before the next one
begins; what it starts (the reset worker, the close callbacks) runs beside, and other goroutines
may use the session as well.  Operations that only set or read fields that `Session.Shared` does
not have are left out of the list, and a panic in an operation is a list that ends there.

The pool is changed by this `connect` alone; `ClientPool` has the other goroutines of a client.
Which sessions of the pool are found inactive is not determined here.

## Main results

* `sess_step` — a step of the session leaves the connection in place as long as no reset is
  requested.
* `rejected_session_iff` — a rejection goes well if and only if the session still has its
  connection.
-/

namespace Getty.Transport.RejectedSession

open Getty.Verified.ThreadPool
open Getty.Transport.Session (Config ResetKind WriteKind)

/-! ## The callback -/

/-- The operations of the callback. -/
inductive Op where
  | close
  | reset (k : ResetKind)
  | write (k : WriteKind)
  | closeConn
  | setListener (present : Bool)
  | setWriter (present : Bool)
  | setAttributes (attrs : Attrs)
  deriving Repr, DecidableEq

/-- How the callback ends. -/
inductive Ending where
  | nil
  | error
  | panic
  deriving Repr, DecidableEq

/-- `callNewSession` returns an error. -/
def Ending.err : Ending → Bool
  | .nil => false
  | .error => true
  | .panic => true

/-! ## The model -/

/-- `connect` has asked the session for its connection; `requests` is the number of reset requests
by then. -/
structure Rejection where
  conn : Option Nat
  requests : Nat
  deriving Repr, DecidableEq

/-- The session and the pool; whether the dialed socket is closed, what `connect` has returned and
whether it has panicked.  `rejected` is a ghost. -/
structure Shared where
  sess : Session.Shared
  ssMap : Option (List Nat)
  closed : Bool
  returned : Option Bool
  crashed : Bool
  rejected : Option Rejection

/-- `connect` after the dial.  `th` is the call that it makes. -/
inductive ConnPc where
  | callback (th : Option Session.Thread) (ops : List Op) (e : Ending)
  | reject
  | setClient
  | setIgnore
  | run (th : Session.Thread) (panicking : Bool)
  | admission
  | drop (th : Session.Thread)
  deriving Repr, DecidableEq

inductive Thread where
  | sess (th : Session.Thread)
  | connect (pc : ConnPc)
  deriving Repr, DecidableEq

/-- The goroutine that made a call is still in it. -/
def own : Session.Thread → Bool
  | .stop _ .close => true
  | .stop _ .opening => true
  | .gc .opening => true
  | .run _ => true
  | .write _ _ => true
  | .reset _ => true
  | .request _ => true
  | .await _ => true
  | _ => false

/-- The step closes the socket. -/
def closesSocket (x : Session.Shared) : Session.Thread → List Session.Thread → Bool
  | .worker .closeConn, [.worker .takeTimer] => x.conn.isSome
  | .cron _ .rawClose, _ => x.conn.isSome
  | .cleanup _ .closeConn, _ => true
  | _, _ => false

/-- A step of the session. -/
def Shared.take (s : Shared) (th : Session.Thread) (out : Session.Shared × List Session.Thread) :
    Shared :=
  { s with sess := out.1, closed := s.closed || closesSocket s.sess th out.2 }

abbrev Outcomes := List (Shared × List Thread)

/-- The threads that a call has started. -/
def beside (ts : List Session.Thread) : List Thread := (ts.filter fun t => !own t).map .sess

/-- A step of a call; `next` says where `connect` goes on. -/
def callStep (s : Shared) (th : Session.Thread)
    (next : Shared → List Session.Thread → Option Session.Thread → Shared × List Thread) :
    Outcomes :=
  (Session.step s.sess th).map fun out =>
    let n := next (s.take th out) out.2 (out.2.find? own)
    (n.1, n.2 ++ beside out.2)

/-- The call that an operation makes. -/
def Op.call : Op → Option Session.Thread
  | .close => some (.stop .readOnce .close)
  | .reset k => some (.reset k)
  | .write .send => some (.write .send (.lock none none))
  | .write k => some (.write k .closedCheck)
  | _ => none

/-- What an operation does at once. -/
def Op.set (s : Shared) : Op → Shared
  | .closeConn => { s with closed := s.closed || s.sess.conn.isSome }
  | .setListener b => { s with sess := { s.sess with listener := b } }
  | .setWriter b => { s with sess := { s.sess with writer := b } }
  | .setAttributes a => { s with sess := { s.sess with attrs := s.sess.attrs.map fun _ => a } }
  | _ => s

/-- `connect` returns. -/
def Shared.ret (s : Shared) (ok : Bool) : Shared := { s with returned := some ok }

def Shared.crash (s : Shared) : Shared := { s with crashed := true }

/-- `ss.Conn()` in the rejection. -/
def Shared.ask (s : Shared) : Shared :=
  { s with rejected := some ⟨s.sess.conn, s.sess.nextRequest⟩ }

/-- `ss.Conn().Close()`, which panics without a connection. -/
def Shared.reject (s : Shared) : Shared :=
  match s.sess.conn with
  | some _ => { s.ask.ret false with closed := true }
  | none => s.ask.crash

/-- `run` panics: for lack of a connection, listener or writer, or for the timer wheel. -/
def runPanics : Session.Thread → List Session.Thread → Bool
  | .run .check, [.run .exit] => true
  | .run .install, [.run .exit] => true
  | _, _ => false

/-- The attributes of a session that has some. -/
def Shared.modAttrs (s : Shared) (f : Attrs → Attrs) : Shared :=
  { s with sess := { s.sess with attrs := s.sess.attrs.map f } }

/-- The reconnect attributes of a session that is not admitted are removed. -/
def Shared.removeAttrs (s : Shared) : Shared := s.modAttrs fun _ => ⟨false, none⟩

/-- The critical section of `connect`.  The pool keeps the sessions that are found active. -/
def admissionStep (number id : Nat) (s : Shared) : Outcomes :=
  match s.ssMap with
  | none => [(s.removeAttrs, [.connect (.drop (.stop .readOnce .close))])]
  | some ids =>
      if s.sess.conn.isSome ∧ s.sess.cur.done = false then
        ids.sublists.map fun kept =>
          if number ≤ kept.length then
            ({ s.removeAttrs with ssMap := some kept },
              [.connect (.drop (.stop .readOnce .close))])
          else ({ s.ret true with ssMap := some (id :: kept) }, [])
      else [(s.removeAttrs.ret false, [])]

def connectStep (number id : Nat) (s : Shared) : ConnPc → Outcomes
  | .callback (some th) ops e =>
      callStep s th fun s _ t => (s, [.connect (.callback t ops e)])
  | .callback none [] e =>
      if e.err then [(s, [.connect .reject])] else [(s, [.connect .setClient])]
  | .callback none (op :: ops) e => [(op.set s, [.connect (.callback op.call ops e)])]
  | .reject => [(s.reject, [])]
  | .setClient => [(s.modAttrs fun a => { a with client := true }, [.connect .setIgnore])]
  | .setIgnore =>
      [(s.modAttrs fun a => { a with ignoreReconnect := some false },
        [.connect (.run (.run .register) false)])]
  | .run th p =>
      callStep s th fun s bs t =>
        match t with
        | some t => (s, [.connect (.run t (p || runPanics th bs))])
        | none => if p then (s.crash, []) else (s, [.connect .admission])
  | .admission => admissionStep number id s
  | .drop th =>
      callStep s th fun s _ t =>
        match t with
        | some t => (s, [.connect (.drop t)])
        | none => (s.ret false, [])

def step (number id : Nat) (s : Shared) : Thread → Outcomes
  | .sess th => liftOutcomes (fun x ts => s.take th (x, ts)) .sess (Session.step s.sess th)
  | .connect pc => connectStep number id s pc

/-- What other goroutines may start: any use of the session, but neither `run` nor the preparation
of a session that was reset, which takes a connection. -/
def entry (s : Shared) : Thread → Bool
  | .sess (.run _) => false
  | .sess (.reuse _) => false
  | .sess th => Session.entry s.sess th
  | .connect _ => false

/-- The client admits up to `number` sessions; `id` is the one that `connect` has dialed. -/
def prog (number id : Nat) : Prog Shared Thread where
  entry := entry
  step := step number id

/-- A dialed session: an end point, and neither attributes nor listener nor writer. -/
def dialed (taskPool : Bool) : Config := ⟨⟨false, none⟩, some taskPool, false, false⟩

/-- `connect` calls the NewSessionCallback. -/
def initial (taskPool : Bool) (ssMap : Option (List Nat)) (ops : List Op) (e : Ending) :
    Conf Shared Thread :=
  ⟨⟨Session.Shared.init (dialed taskPool), ssMap, false, none, false, none⟩,
    [.connect (.callback none ops e)]⟩

/-! ## The outline -/

/-- A thread that leaves the connection alone until a reset is requested. -/
def Tame (x : Session.Shared) (th : Session.Thread) : Prop :=
  th.harmless = true ∨ 0 < x.nextRequest

/-- Without a reset request the session has its connection. -/
def Wired (x : Session.Shared) : Prop := x.nextRequest = 0 → x.conn.isSome = true

/-- What a rejection comes to. -/
structure Settled (s : Shared) (r : Rejection) : Prop where
  kept : r.conn.isSome = true →
    s.returned = some false ∧ s.crashed = false ∧ s.closed = true
  lost : r.conn = none → s.crashed = true
  requested : r.requests = 0 → r.conn.isSome = true

structure Inv (ssMap : Option (List Nat)) (s : Shared) : Prop where
  pool : s.ssMap = ssMap
  wired : Wired s.sess
  pending : s.rejected = none → s.returned = none ∧ s.crashed = false
  settled : ∀ r, s.rejected = some r → Settled s r

/-- A callback that fails leads to the rejection. -/
def Local (s : Shared) : Thread → Prop
  | .sess th => Tame s.sess th
  | .connect (.callback th _ e) => e.err = true ∧ ∀ t, th = some t → Tame s.sess t
  | .connect .reject => True
  | .connect _ => False

def Thread.connects : Thread → Bool
  | .sess _ => false
  | .connect _ => true

/-- `connect` has one goroutine, until the rejection. -/
def outline (ssMap : Option (List Nat)) : Outline Shared Thread Unit where
  shared := Inv ssMap
  loc := Local
  val _ s := (s.rejected.isNone).toNat
  wt _ a := a.connects.toNat

section Steps

variable {x x' : Session.Shared} {th : Session.Thread} {ts : List Session.Thread}
variable {s s' : Shared} {ssMap : Option (List Nat)}

theorem Tame.mono (h : Tame x th) (hle : x.nextRequest ≤ x'.nextRequest) : Tame x' th := by
  rcases h with h | h
  · exact Or.inl h
  · exact Or.inr (by omega)

/-- **Step lemma.**  A step of the session: as long as no reset is requested, the connection stays,
and so does the form of the threads. -/
theorem sess_step (hw : Wired x) (hth : Tame x th) (h : (x', ts) ∈ Session.step x th) :
    Wired x' ∧ ∀ t ∈ ts, Tame x' t := by
  have hle := Session.step_nextRequest h
  rcases hth with hharm | hpos
  · refine ⟨fun hzero => ?_, fun t ht => ?_⟩
    · have hconn := hw (by omega)
      rcases Session.step_wiring h with ⟨-, hsame, -⟩ | ⟨⟨k, rfl⟩, -⟩ | ⟨⟨l, rfl⟩, -⟩ | ⟨hnone, -⟩
      · rw [hsame]
        exact hconn
      · cases hharm
      · cases hharm
      · rw [hnone] at hconn
        cases hconn
    · rcases Session.step_harmless hharm h with hall | hpos
      · exact Or.inl (hall t ht)
      · exact Or.inr hpos
  · exact ⟨fun hzero => by omega, fun t _ => Or.inr (by omega)⟩

theorem Settled.mono {r : Rejection} (h : Settled s r) (hret : s'.returned = s.returned)
    (hcrash : s'.crashed = s.crashed) (hclosed : s.closed = true → s'.closed = true) :
    Settled s' r := by
  refine ⟨fun hconn => ?_, fun hnone => hcrash.trans (h.lost hnone), h.requested⟩
  obtain ⟨h₁, h₂, h₃⟩ := h.kept hconn
  exact ⟨hret.trans h₁, hcrash.trans h₂, hclosed h₃⟩

/-- A step that leaves what `connect` has come to alone. -/
theorem Inv.mono (h : Inv ssMap s) (hw : Wired s'.sess) (hpool : s'.ssMap = s.ssMap)
    (hret : s'.returned = s.returned) (hcrash : s'.crashed = s.crashed)
    (hrej : s'.rejected = s.rejected) (hclosed : s.closed = true → s'.closed = true) :
    Inv ssMap s' := by
  refine ⟨hpool.trans h.pool, hw, fun hnone => ?_, fun r hr => ?_⟩
  · rw [hret, hcrash]
    exact h.pending (hrej.symm.trans hnone)
  · exact (h.settled r (hrej.symm.trans hr)).mono hret hcrash hclosed

theorem Inv.take (h : Inv ssMap s) (hw : Wired x') : Inv ssMap (s.take th (x', ts)) :=
  h.mono hw rfl rfl rfl rfl fun hclosed => by simp [Shared.take, hclosed]

/-- An operation of the callback that makes no call. -/
theorem Inv.set (h : Inv ssMap s) (op : Op) : Inv ssMap (op.set s) := by
  cases op with
  | closeConn =>
      refine h.mono h.wired rfl rfl rfl rfl fun hclosed => ?_
      simp [Op.set, hclosed]
  | _ => exact h.mono h.wired rfl rfl rfl rfl id

private theorem set_nextRequest (s : Shared) (op : Op) :
    (op.set s).sess.nextRequest = s.sess.nextRequest ∧ (op.set s).rejected = s.rejected := by
  cases op <;> exact ⟨rfl, rfl⟩

private theorem harmless_call {op : Op} (h : op.call = some th) : th.harmless = true := by
  cases op with
  | write k => cases k <;> (cases h; rfl)
  | close => cases h; rfl
  | reset k => cases h; rfl
  | _ => cases h

/-- **The rejection.** -/
theorem Inv.reject (h : Inv ssMap s) (hnone : s.rejected = none) : Inv ssMap s.reject := by
  obtain ⟨-, hcrash⟩ := h.pending hnone
  unfold Shared.reject
  split
  · next c hconn =>
      refine ⟨h.pool, h.wired, nofun, fun r hr => ?_⟩
      cases hr
      have hsome : s.sess.conn.isSome = true := by rw [hconn]; rfl
      refine ⟨fun _ => ⟨rfl, hcrash, rfl⟩, fun hno => ?_, fun _ => hsome⟩
      cases hconn.symm.trans hno
  · next hconn =>
      refine ⟨h.pool, h.wired, nofun, fun r hr => ?_⟩
      cases hr
      refine ⟨fun hsome => ?_, fun _ => rfl, fun hzero => h.wired hzero⟩
      rw [hconn] at hsome
      cases hsome

theorem reject_same (s : Shared) : s.reject.sess = s.sess ∧ s.reject.rejected.isSome = true := by
  unfold Shared.reject
  split <;> exact ⟨rfl, rfl⟩

theorem connects_sess (ts : List Session.Thread) :
    total (fun a => (Thread.connects a).toNat) (ts.map Thread.sess) = 0 :=
  total_map_eq_zero _ _ fun _ _ => rfl

variable {number id : Nat} {a b : Thread} {bs : List Thread}

private theorem mem_beside {t : Thread} (h : t ∈ beside ts) : ∃ u ∈ ts, t = .sess u := by
  obtain ⟨u, hu, rfl⟩ := List.mem_map.mp h
  exact ⟨u, List.mem_of_mem_filter hu, rfl⟩

/-- What the thread's own step has to keep. -/
structure Keeps (ssMap : Option (List Nat)) (s : Shared) (a : Thread) (s' : Shared)
    (bs : List Thread) : Prop where
  requests : s.sess.nextRequest ≤ s'.sess.nextRequest
  keeps : (outline ssMap).Keeps s a s' bs

private theorem keeps_sess (hs : Inv ssMap s) (hl : Tame s.sess th)
    (h : (s', bs) ∈ step number id s (.sess th)) : Keeps ssMap s (.sess th) s' bs := by
  rw [step] at h
  obtain ⟨y, us, hout, rfl, rfl⟩ := mem_liftOutcomes h
  obtain ⟨hw, htame⟩ := sess_step hs.wired hl hout
  refine ⟨Session.step_nextRequest hout, hs.take hw, fun b hb => ?_, fun _ => ?_⟩
  · obtain ⟨t, ht, rfl⟩ := List.mem_map.mp hb
    exact htame t ht
  · simp only [outline]
    rw [connects_sess]
    rfl

/-- A call of the callback. -/
private theorem keeps_call {ops : List Op} {e : Ending} (hs : Inv ssMap s) (herr : e.err = true)
    (hth : Tame s.sess th)
    (h : (s', bs) ∈ step number id s (.connect (.callback (some th) ops e))) :
    Keeps ssMap s (.connect (.callback (some th) ops e)) s' bs := by
  obtain ⟨⟨y, us⟩, hout, heq⟩ := List.mem_map.mp h
  cases heq
  obtain ⟨hw, htame⟩ := sess_step hs.wired hth hout
  refine ⟨Session.step_nextRequest hout, hs.take hw, fun b hb => ?_, fun _ => ?_⟩
  · rcases List.mem_append.mp hb with hb | hb
    · cases List.mem_singleton.mp hb
      exact ⟨herr, fun t ht => htame t (List.mem_of_find?_eq_some ht)⟩
    · obtain ⟨t, ht, rfl⟩ := mem_beside hb
      exact htame t ht
  · simp only [outline]
    rw [total_append, beside, connects_sess]
    rfl

/-- The callback between two calls, and its end. -/
private theorem keeps_next {ops : List Op} {e : Ending} (hs : Inv ssMap s) (herr : e.err = true)
    (h : (s', bs) ∈ step number id s (.connect (.callback none ops e))) :
    Keeps ssMap s (.connect (.callback none ops e)) s' bs := by
  cases ops with
  | nil =>
      simp only [step, connectStep, herr, if_true] at h
      cases List.mem_singleton.mp h
      exact ⟨Nat.le_refl _, Outline.keeps_one hs trivial fun _ => rfl⟩
  | cons op ops =>
      cases List.mem_singleton.mp h
      obtain ⟨hreq, hrej⟩ := set_nextRequest s op
      refine ⟨Nat.le_of_eq hreq.symm, Outline.keeps_one (hs.set op)
        ⟨herr, fun t ht => Or.inl (harmless_call ht)⟩ fun _ => ?_⟩
      simp only [outline, hrej]
      rfl

/-- **Step lemma.** -/
theorem keeps_step (hs : Inv ssMap s) (hl : Local s a)
    (hwt : (a.connects.toNat : Int) ≤ (s.rejected.isNone).toNat)
    (h : (s', bs) ∈ step number id s a) : Keeps ssMap s a s' bs := by
  cases a with
  | sess th => exact keeps_sess hs hl h
  | connect pc =>
      cases pc with
      | callback th ops e =>
          cases th with
          | some th => exact keeps_call hs hl.1 (hl.2 th rfl) h
          | none => exact keeps_next hs hl.1 h
      | reject =>
          have hnone : s.rejected = none := by
            cases hrej : s.rejected with
            | none => rfl
            | some r =>
                rw [hrej] at hwt
                cases hwt
          obtain ⟨hsess, hsome⟩ := reject_same s
          have hout : (s', bs) = (s.reject, []) := List.mem_singleton.mp h
          obtain ⟨rfl, rfl⟩ := Prod.mk.inj hout
          refine ⟨by rw [hsess], Outline.keeps_end (hs.reject hnone) fun _ => ?_⟩
          simp only [outline]
          rw [hnone, Option.isNone_eq_false_iff.mpr hsome]
          rfl
      | _ => cases hl

private theorem outline_valid (number id : Nat) (ssMap : Option (List Nat)) :
    (outline ssMap).Valid (prog number id) where
  entry s a _ h := by
    cases a with
    | connect pc => cases h
    | sess th =>
        refine ⟨Or.inl ?_, fun _ => rfl⟩
        have hentry : entry s (.sess th) = true := h
        unfold entry at hentry
        split at hentry
        · cases hentry
        · cases hentry
        · next t hrun hreuse heq =>
            cases heq
            unfold Session.entry at hentry
            split at hentry
            case h_1 => exact absurd rfl (hrun _)
            case h_7 cfg => exact absurd rfl (hreuse cfg)
            case h_8 => cases hentry
            all_goals rfl
        · cases hentry
  own s a s' bs hs hl hwt h := by
    exact (keeps_step hs hl (hwt ()) h).keeps
  other s a b s' bs hs ha hb hpair h := by
    have hle : (a.connects.toNat : Int) + b.connects.toNat ≤ (s.rejected.isNone).toNat := hpair ()
    have hk := keeps_step hs ha (by omega) h
    cases b with
    | sess th => exact Tame.mono hb hk.requests
    | connect pc =>
        cases pc with
        | callback th ops e => exact ⟨hb.1, fun t ht => (hb.2 t ht).mono hk.requests⟩
        | reject => trivial
        | _ => cases hb

end Steps

/-! ## Runs -/

theorem outline_initial (taskPool : Bool) (ssMap : Option (List Nat)) (ops : List Op) {e : Ending}
    (herr : e.err = true) : (outline ssMap).Holds (initial taskPool ssMap ops e) := by
  refine ⟨⟨rfl, fun _ => rfl, fun _ => ⟨rfl, rfl⟩, fun r hr => ?_⟩, fun a ha => ?_, fun _ => rfl⟩
  · cases hr
  · cases List.mem_singleton.mp ha
    exact ⟨herr, fun t ht => by cases ht⟩

/-- `connect` is in the callback, or about to reject the session. -/
def ConnPc.rejecting : ConnPc → Bool
  | .callback _ _ _ => true
  | .reject => true
  | _ => false

/-- **A rejected session takes the client down if its connection is gone, and only then.**  For a
callback that fails, whatever it has done to the session, and whatever others do: the pool does
not change; `connect` gets to the rejection; and it returns false with the socket closed if and
only if the session still had its connection there, as it has when no reset was requested. -/
theorem rejected_session_iff (number id : Nat) (taskPool : Bool) (ssMap : Option (List Nat))
    (ops : List Op) (e : Ending) (herr : e.err = true) (c : Conf Shared Thread)
    (h : (prog number id).Reaches (initial taskPool ssMap ops e) c) :
    c.shared.ssMap = ssMap ∧
      (c.shared.rejected = none → c.shared.returned = none ∧ c.shared.crashed = false ∧
        ∃ pc, .connect pc ∈ c.pool ∧ pc.rejecting = true ∧
          (pc = .reject → step number id c.shared (.connect pc) ≠ [])) ∧
      ∀ r, c.shared.rejected = some r →
        ((c.shared.returned = some false ∧ c.shared.crashed = false ∧ c.shared.closed = true) ↔
          r.conn.isSome = true) ∧
        (r.requests = 0 → r.conn.isSome = true) := by
  have hholds := (outline_valid number id ssMap).holds_run
    (outline_initial taskPool ssMap ops herr) h
  refine ⟨hholds.shared.pool, fun hnone => ?_, fun r hr => ?_⟩
  · obtain ⟨hret, hcrash⟩ := hholds.shared.pending hnone
    refine ⟨hret, hcrash, ?_⟩
    have hone : total (fun a => (Thread.connects a).toNat) c.pool = 1 := by
      refine (hholds.ledger ()).symm.trans ?_
      show ((c.shared.rejected.isNone).toNat : Int) = 1
      rw [hnone]
      rfl
    rw [total_toNat] at hone
    have hpos : 0 < c.pool.countP Thread.connects := by omega
    obtain ⟨a, ha, hconnects⟩ := List.countP_pos_iff.mp hpos
    cases a with
    | sess th => cases hconnects
    | connect pc =>
        refine ⟨pc, ha, ?_, ?_⟩
        · have hloc := hholds.loc _ ha
          cases pc with
          | callback th ops e => rfl
          | reject => rfl
          | _ => cases hloc
        · rintro rfl
          simp [step, connectStep]
  · have hset := hholds.shared.settled r hr
    refine ⟨⟨fun hgood => ?_, hset.kept⟩, hset.requested⟩
    cases hconn : r.conn with
    | some g => rfl
    | none =>
        rw [hset.lost hconn] at hgood
        cases hgood.2.1

/-- The callback sets a listener, closes the session and panics. -/
theorem rejected_session_iff_panic :
    ∃ c, (prog 1 0).Reaches
        (initial true (some [7]) [.setListener true, .close] .panic) c ∧
      c.shared.returned = some false ∧ c.shared.crashed = false ∧ c.shared.closed = true ∧
      c.shared.ssMap = some [7] := by
  have hrun : ∃ c ∈ (prog 1 0).run (initial true (some [7]) [.setListener true, .close] .panic)
      (List.flatten [List.replicate 9 (.fire 0 0), List.replicate 3 (.fire 1 0),
        List.replicate 5 (.fire 0 0)]),
      c.shared.rejected = some ⟨some 0, 0⟩ := by decide +kernel
  obtain ⟨c, hc, hrej⟩ := hrun
  obtain ⟨hpool, -, hiff⟩ := rejected_session_iff 1 0 true (some [7]) _ .panic rfl c ⟨_, hc⟩
  obtain ⟨hret, hcrash, hclosed⟩ := (hiff _ hrej).1.mpr rfl
  exact ⟨c, ⟨_, hc⟩, hret, hcrash, hclosed, hpool⟩

/-- **The defect.**  The callback resets the session and returns an error: `connect` panics. -/
theorem rejected_session_crashes :
    ∃ c, (prog 1 0).Reaches (initial true (some []) [.reset .reset] .error) c ∧
      c.shared.crashed = true ∧ c.shared.returned = none := by
  have hrun : ∃ c ∈ (prog 1 0).run (initial true (some []) [.reset .reset] .error)
      (List.flatten [List.replicate 3 (.fire 0 0), List.replicate 7 (.fire 1 0),
        List.replicate 3 (.fire 2 0), List.replicate 9 (.fire 1 0),
        List.replicate 2 (.fire 2 0), List.replicate 5 (.fire 1 0),
        List.replicate 3 (.fire 0 0)]),
      c.shared.crashed = true ∧ c.shared.returned = none := by decide +kernel
  obtain ⟨c, hc, hgoal⟩ := hrun
  exact ⟨c, ⟨_, hc⟩, hgoal⟩

end Getty.Transport.RejectedSession
