import Getty.Verified.Shuffle
import Getty.Transport.WriteProgress

/-!
# Packages on the stream

A batch of `WriteBytesArray` or `Send` may be interrupted by other calls: over TLS without
a codec it leaves in one write per package, under the read lock.  A single package is never
interrupted, on any connection.  It leaves in one write, or its fragments leave under the
write lock, where nobody else writes.

So the stream is always a sequence of whole packages, in which the packages of each call
keep their order.  The proof follows a run from its end: what the calls still put on the
stream is an interleaving of the packages they have left, and the rest of a package whose
first fragments are out comes before anything else.

## Main results

* `stream_step` — what one step puts on the stream, and what it leaves to write.
* `stream_rest` — the rest of the stream, from any configuration to the end of its run.
* `packages_never_torn` — the stream is a sequence of whole packages at any time.
-/

namespace Getty.Transport.WriteStream

open Getty.Verified Getty.Verified.ThreadPool

/-! ## The packages of a call -/

/-- The slices with bytes in them. -/
def present (slices : List Bytes) : List Bytes := slices.filter (· ≠ [])

@[simp] theorem present_nil : present [] = [] := rfl

@[simp] theorem present_append (l r : List Bytes) : present (l ++ r) = present l ++ present r :=
  List.filter_append ..

private theorem present_cons (b : Bytes) (bs : List Bytes) :
    present (b :: bs) = present [b] ++ present bs :=
  present_append [b] bs

@[simp] theorem flatten_present (slices : List Bytes) :
    (present slices).flatten = slices.flatten := by
  induction slices with
  | nil => rfl
  | cons b bs ih =>
      rw [present_cons, List.flatten_append, ih]
      by_cases hb : b = [] <;> simp [present, hb]

/-- The packages the caller has passed, without those that have no bytes. -/
def Call.packages : Call → List Bytes
  | .writeBytes pkg => present [pkg]
  | .writeBytesArray pkgs => present pkgs
  | .writePkg pkg _ => present [pkg]
  | .send pkg => present pkg.slices

/-- The slices of the sends that a call has left. -/
def todoSlices (todo : List Pkg) : List Bytes := todo.flatMap Pkg.slices

/-- The slices a call has left; what an exclusive call has left is one package, or the
rest of one. -/
def Thread.slices (th : Thread) : List Bytes :=
  if th.call.plan.exclusive then [th.rem]
  else
    match th.pc with
    | .lock => todoSlices th.call.plan.sends
    | .send todo => todoSlices todo
    | .write bs todo => bs ++ todoSlices todo
    | .codec bs todo => bs ++ todoSlices todo

/-- The packages a call has left. -/
def Thread.packages (th : Thread) : List Bytes := present th.slices

/-- A package of the call is partly on the stream: it writes fragments, and has written
some. -/
def Thread.midway (th : Thread) : Bool := th.pc.holds && th.call.plan.exclusive

private theorem present_fragments (pkg : Bytes) (h : pkg.length ≤ maxPacketLen) :
    present (fragments pkg) = present [pkg] := by
  rw [fragments, if_neg (by omega)]
  by_cases hnil : pkg = [] <;> simp [present, hnil]

private theorem writeBytes_packages (c : Call) (pkg : Bytes) (hplan : c.plan = writeBytes pkg)
    (hpay : c.payload = pkg) : (Thread.start c).packages = present [pkg] := by
  unfold Thread.packages Thread.slices Thread.start
  cases hx : (writeBytes pkg).exclusive with
  | true => simp [hplan, hx, Thread.rem, hpay]
  | false =>
      have hshort : pkg.length ≤ maxPacketLen := by
        simpa [writeBytes, WriteMethod.exclusive] using hx
      have hslices : todoSlices ((fragments pkg).map .bytes) = fragments pkg := by
        simp [todoSlices, List.flatMap_map, Pkg.slices]
      rw [hplan, hx, if_neg (by simp)]
      show present (todoSlices ((fragments pkg).map .bytes)) = present [pkg]
      rw [hslices, present_fragments pkg hshort]

/-- A call begins with all its packages. -/
private theorem packages_start (c : Call) : (Thread.start c).packages = c.packages := by
  cases c with
  | writeBytes pkg => exact writeBytes_packages _ pkg rfl rfl
  | writeBytesArray pkgs =>
      by_cases hone : ∃ pkg, pkgs = [pkg]
      · obtain ⟨pkg, rfl⟩ := hone
        exact writeBytes_packages _ pkg rfl (by simp [Call.payload])
      · have hplan := writeBytesArray_batch fun pkg hpkgs => hone ⟨pkg, hpkgs⟩
        simp [Thread.packages, Thread.slices, Thread.start, Call.plan, hplan, todoSlices,
          Pkg.slices, Call.packages]
  | writePkg pkg timeout =>
      by_cases ht : 0 < timeout <;>
        simp [Thread.packages, Thread.slices, Thread.start, Call.plan, writePkg,
          WriteMethod.exclusive, Call.packages, ht, Thread.rem, Call.payload, todoSlices,
          Pkg.slices]
  | send pkg =>
      simp [Thread.packages, Thread.slices, Thread.start, Call.plan, send, WriteMethod.exclusive,
        todoSlices, Call.packages]

/-! ## One step -/

@[simp] theorem put_stream (s : Shared) (th : Thread) (b : Bytes) :
    (put s th b).1.stream = s.stream ++ b := by
  unfold put
  split
  · next hb => simp [hb]
  · split <;> rfl

/-- What a step that puts `out` on the stream makes of the packages of its call. -/
structure Emits (th : Thread) (out : Bytes) (th' : Thread) : Prop where
  call : th'.call = th.call
  rem : th.rem = out ++ th'.rem
  shared : th.call.plan.exclusive = false →
    ∃ slices, th.slices = slices ++ th'.slices ∧ out = slices.flatten

/-- Nothing is written. -/
theorem Emits.quiet {th th' : Thread} (hcall : th'.call = th.call) (hrem : th'.rem = th.rem)
    (hslices : th.call.plan.exclusive = false → th'.slices = th.slices) : Emits th [] th' where
  call := hcall
  rem := by simp [hrem]
  shared hx := ⟨[], by simp [hslices hx], rfl⟩

/-- **Step lemma.**  A step puts the next slices of its call on the stream, and the call
ends only when none is left. -/
theorem stream_step {cfg : Cfg} {s s' : Shared} {th : Thread} {ths : List Thread}
    (h : (s', ths) ∈ step cfg s th) :
    (∃ th' out, ths = [th'] ∧ Emits th out th' ∧ s'.stream = s.stream ++ out ∧
      th'.pc.holds = true) ∨
    (ths = [] ∧ th.packages = [] ∧ s'.stream = s.stream ∧ th.pc.holds = true) := by
  unfold step at h
  split at h
  · next hpc =>
      left
      have hout : ∃ t : Shared, s' = t ∧ t.stream = s.stream ∧
          ths = [th.goto (.send th.call.plan.sends)] := by
        unfold lockStep at h
        split at h
        · split at h
          · cases List.mem_singleton.mp h
            exact ⟨_, rfl, rfl, rfl⟩
          · cases h
        · split at h
          · cases h
          · cases List.mem_singleton.mp h
            exact ⟨_, rfl, rfl, rfl⟩
      obtain ⟨t, rfl, hstream, rfl⟩ := hout
      refine ⟨_, [], rfl, .quiet rfl ?_ fun hx => ?_, by simp [hstream], rfl⟩
      · simp [Thread.rem, hpc, plan_data]
      · simp [Thread.slices, hpc, hx]
  · next hpc =>
      right
      cases List.mem_singleton.mp h
      refine ⟨rfl, ?_, ?_, ?_⟩
      · simp only [Thread.packages, Thread.slices, hpc]
        split <;> simp [Thread.rem, hpc, todoSlices, present]
      · unfold unlockStep
        split <;> split <;> rfl
      · rw [hpc]
        rfl
  · next p todo hpc =>
      left
      -- one write of all the bytes of the package
      have hput : ∀ b, b = p.data → ∃ th' out, [(put s th b).2.goto (.send todo)] = [th'] ∧
          Emits th out th' ∧ (put s th b).1.stream = s.stream ++ out ∧ th'.pc.holds = true := by
        rintro b rfl
        refine ⟨_, p.data, rfl, ⟨by simp, by simp [Thread.rem, hpc], fun hx => ?_⟩, by simp, rfl⟩
        exact ⟨p.slices, by simp [Thread.slices, hpc, hx, todoSlices], rfl⟩
      unfold sendStep at h
      split at h
      · split at h
        · cases h
        · cases List.mem_singleton.mp h
          refine ⟨_, [], rfl, .quiet rfl ?_ fun hx => ?_, by simp, rfl⟩
          · simp [Thread.rem, hpc, Pkg.data]
          · simp [Thread.slices, hpc, hx, todoSlices]
      · split at h
        · cases List.mem_singleton.mp h
          exact hput _ (by simp [Pkg.data, Pkg.slices])
        · split at h
          · cases List.mem_singleton.mp h
            exact hput _ rfl
          · cases List.mem_singleton.mp h
            refine ⟨_, [], rfl, .quiet rfl ?_ fun hx => ?_, by simp, rfl⟩
            · simp [Thread.rem, hpc, Pkg.data, Pkg.slices]
            · simp [Thread.slices, hpc, hx, todoSlices, Pkg.slices]
  · next todo hpc =>
      left
      cases List.mem_singleton.mp h
      refine ⟨_, [], rfl, .quiet rfl ?_ fun hx => ?_, by simp, rfl⟩
      · simp [Thread.rem, hpc]
      · simp [Thread.slices, hpc, hx]
  · next b bs todo hpc =>
      left
      cases List.mem_singleton.mp h
      refine ⟨_, b, rfl, ⟨by simp, by simp [Thread.rem, hpc], fun hx => ?_⟩, by simp, rfl⟩
      exact ⟨[b], by simp [Thread.slices, hpc, hx], by simp⟩
  · next todo hpc =>
      left
      cases List.mem_singleton.mp h
      refine ⟨_, [], rfl, .quiet rfl ?_ fun hx => ?_, by simp, rfl⟩
      · simp [Thread.rem, hpc]
      · simp [Thread.slices, hpc, hx]
  · next b bs todo hpc =>
      left
      cases List.mem_singleton.mp h
      refine ⟨_, b, rfl, ⟨by simp, by simp [Thread.rem, hpc], fun hx => ?_⟩, by simp, rfl⟩
      exact ⟨[b], by simp [Thread.slices, hpc, hx], by simp⟩

/-! ## The rest of a run -/

/-- While an exclusive call holds `packetLock`, no other call does. -/
private theorem not_midway_of_holds {cfg : Cfg} {c : Conf Shared Thread} (hc : (locks cfg).Holds c)
    {l r : List Thread} {a b : Thread} (hpool : c.pool = l ++ a :: r) (hmem : b ∈ l ∨ b ∈ r)
    (ha : a.pc.holds = true) (hb : b.pc.holds = true) : a.midway = false ∧ b.midway = false := by
  have hw := hc.weight_pair_le hpool hmem .writer
  have hr := hc.weight_pair_le hpool hmem .readers
  simp only [locks, ha, hb, Bool.true_and] at hw hr
  simp only [Thread.midway, ha, hb, Bool.true_and]
  cases hlock : c.shared.wlock with
  | true =>
      -- no reader is left, so both would be writers
      have hnone := hc.shared hlock
      rw [hnone] at hr
      rw [hlock] at hw
      cases hxa : a.call.plan.exclusive <;> cases hxb : b.call.plan.exclusive <;>
        simp [hxa, hxb] at hw hr
  | false =>
      rw [hlock] at hw
      cases hxa : a.call.plan.exclusive <;> cases hxb : b.call.plan.exclusive <;>
        simp [hxa, hxb] at hw hr ⊢

/-- What the calls of a pool still put on the stream: an interleaving of their packages,
in which the rest of a package that is partly out comes first. -/
structure Rest (pool : List Thread) (w : List Bytes) : Prop where
  shuffle : Shuffle (pool.map Thread.packages) w
  midway : ∀ l a r, pool = l ++ a :: r → a.midway = true →
    ∃ w', w = present [a.rem] ++ w' ∧ Shuffle ((l ++ r).map Thread.packages) w'

theorem packages_exclusive {th : Thread} (hx : th.call.plan.exclusive = true) :
    th.packages = present [th.rem] := by
  simp [Thread.packages, Thread.slices, hx]

/-- A step under the read lock takes packages of its call. -/
private theorem shuffle_shared {l r : List Thread} {th th' : Thread} {out : Bytes} {w : List Bytes}
    (he : Emits th out th') (hx : th.call.plan.exclusive = false)
    (hw : Shuffle ((l ++ th' :: r).map Thread.packages) w) :
    ∃ v, Shuffle ((l ++ th :: r).map Thread.packages) v ∧ v.flatten = out ++ w.flatten := by
  obtain ⟨slices, hslices, rfl⟩ := he.shared hx
  refine ⟨present slices ++ w, ?_, by simp⟩
  have hpk : th.packages = present slices ++ th'.packages := by
    simp [Thread.packages, hslices]
  rw [List.map_append, List.map_cons] at hw ⊢
  rw [hpk]
  exact hw.take_append _

/-- A step of an exclusive call takes the next part of its package. -/
theorem shuffle_exclusive {l r : List Thread} {th th' : Thread} {out : Bytes} {w : List Bytes}
    (he : Emits th out th') (hx : th.call.plan.exclusive = true) (hh : th'.pc.holds = true)
    (hw : Rest (l ++ th' :: r) w) :
    ∃ w', Shuffle ((l ++ r).map Thread.packages) w' ∧
      Shuffle ((l ++ th :: r).map Thread.packages) (present [th.rem] ++ w') ∧
      (present [th.rem] ++ w').flatten = out ++ w.flatten := by
  have hmid : th'.midway = true := by
    simp [Thread.midway, hh, he.call, hx]
  obtain ⟨w', rfl, hsh⟩ := hw.midway l th' r rfl hmid
  refine ⟨w', hsh, ?_, by simp [he.rem]⟩
  rw [List.map_append, List.map_cons, packages_exclusive hx]
  rw [List.map_append] at hsh
  exact hsh.take_all _

/-- Two places of one list are the same place, or the second is before or after the
first. -/
private theorem same_place {l l' r r' : List Thread} {a b : Thread}
    (h : l ++ a :: r = l' ++ b :: r') : (l' = l ∧ b = a ∧ r' = r) ∨ b ∈ l ∨ b ∈ r := by
  rcases List.append_eq_append_iff.mp h with ⟨as, rfl, has⟩ | ⟨bs, rfl, hbs⟩
  · cases as with
    | nil =>
        simp only [List.nil_append, List.cons.injEq] at has
        exact Or.inl ⟨by simp, has.1.symm, has.2.symm⟩
    | cons x as =>
        simp only [List.cons_append, List.cons.injEq] at has
        exact Or.inr (Or.inr (by simp [has.2]))
  · cases bs with
    | nil =>
        simp only [List.nil_append, List.cons.injEq] at hbs
        exact Or.inl ⟨by simp, hbs.1, hbs.2⟩
    | cons x bs =>
        simp only [List.cons_append, List.cons.injEq] at hbs
        exact Or.inr (Or.inl (by simp [hbs.1]))

/-- **One step, seen from the end of the run.** -/
theorem rest_step {cfg : Cfg} {s s' : Shared} {l r ths : List Thread} {th : Thread}
    {w : List Bytes} (hc : (locks cfg).Holds ⟨s, l ++ th :: r⟩)
    (hc' : (locks cfg).Holds ⟨s', l ++ ths ++ r⟩) (h : (s', ths) ∈ step cfg s th)
    (hw : Rest (l ++ ths ++ r) w) :
    ∃ v, Rest (l ++ th :: r) v ∧ s.stream ++ v.flatten = s'.stream ++ w.flatten := by
  have hholds : ∀ {a : Thread}, a.midway = true → a.pc.holds = true := by
    intro a ha
    simp only [Thread.midway, Bool.and_eq_true] at ha
    exact ha.1
  rcases stream_step h with ⟨th', out, rfl, he, hstream, hh'⟩ | ⟨rfl, hnone, hstream, hh⟩
  · rw [List.append_assoc, List.singleton_append] at hw hc'
    -- another call between its fragments would keep this one away from `packetLock`
    have hother : ∀ a, a ∈ l ∨ a ∈ r → a.midway = false := by
      intro a ha
      by_contra hmid
      rw [Bool.not_eq_false] at hmid
      have := (not_midway_of_holds hc' rfl ha hh' (hholds hmid)).2
      rw [hmid] at this
      cases this
    cases hx : th.call.plan.exclusive with
    | false =>
        obtain ⟨v, hv, hflat⟩ := shuffle_shared he hx hw.shuffle
        refine ⟨v, ⟨hv, fun l' a r' hpool ha => ?_⟩, by rw [hflat, hstream, List.append_assoc]⟩
        rcases same_place hpool with ⟨-, rfl, -⟩ | hmem
        · simp [Thread.midway, hx] at ha
        · rw [hother a hmem] at ha
          cases ha
    | true =>
        obtain ⟨w', hsh, hv, hflat⟩ := shuffle_exclusive he hx hh' hw
        refine ⟨_, ⟨hv, fun l' a r' hpool ha => ?_⟩, by rw [hflat, hstream, List.append_assoc]⟩
        rcases same_place hpool with ⟨rfl, rfl, rfl⟩ | hmem
        · exact ⟨w', rfl, hsh⟩
        · rw [hother a hmem] at ha
          cases ha
  · rw [List.append_nil] at hw hc'
    have hsh := hw.shuffle
    refine ⟨w, ⟨?_, fun l' a r' hpool ha => ?_⟩, by rw [hstream]⟩
    · rw [List.map_append, List.map_cons, hnone]
      rw [List.map_append] at hsh
      exact .drop hsh
    · rcases same_place hpool with ⟨rfl, rfl, rfl⟩ | hmem
      · have hx : a.call.plan.exclusive = true := by
          simp only [Thread.midway, Bool.and_eq_true] at ha
          exact ha.2
        exact ⟨w, by rw [← packages_exclusive hx, hnone, List.nil_append], hsh⟩
      · have := (not_midway_of_holds hc rfl hmem hh (hholds ha)).2
        rw [ha] at this
        cases this

/-- What is on the stream stays there. -/
theorem stream_grows {cfg : Cfg} {c c' : Conf Shared Thread} {m : Move Thread}
    (h : (prog cfg).exec c m = some c') : c.shared.stream <+: c'.shared.stream := by
  rcases exec_cases h with ⟨a, hentry, -⟩ | ⟨l, a, r, s', bs, -, hstep, rfl⟩
  · cases hentry
  · rcases stream_step hstep with ⟨-, out, -, -, hout, -⟩ | ⟨-, -, hout, -⟩
    · exact ⟨out, hout.symm⟩
    · exact ⟨[], by rw [List.append_nil]; exact hout.symm⟩

/-- **Run lemma.**  What a run still puts on the stream until all calls have returned. -/
theorem stream_rest {cfg : Cfg} {c d : Conf Shared Thread} (hc : (locks cfg).Holds c)
    (hrun : (prog cfg).Reaches c d) (hdone : d.pool = []) :
    ∃ w, Rest c.pool w ∧ d.shared.stream = c.shared.stream ++ w.flatten := by
  obtain ⟨ms, hms⟩ := hrun
  induction ms generalizing c with
  | nil =>
      cases hms
      rw [hdone]
      exact ⟨[], ⟨.nil, fun l a r hpool => by simp at hpool⟩, by simp⟩
  | cons m ms ih =>
      rw [run_cons] at hms
      cases hm : (prog cfg).exec c m with
      | none => simp [hm] at hms
      | some c' =>
          rw [hm, Option.bind_some] at hms
          have hc' := (locks_valid cfg).holds_exec hc hm
          obtain ⟨w, hw, hstream⟩ := ih hc' hms
          rcases exec_cases hm with ⟨a, hentry, -⟩ | ⟨l, a, r, s', bs, hpool, hstep, rfl⟩
          · cases hentry
          · obtain ⟨s, pool⟩ := c
            subst hpool
            obtain ⟨v, hv, hflat⟩ := rest_step hc hc' hstep hw
            exact ⟨v, hv, by rw [hstream, hflat]⟩

/-- **Packages are never torn.**  On a plain TCP connection, over TLS and with a codec,
whatever the calls and the schedule: there is an interleaving of the packages of the calls,
those of each call in their order, of which the stream is a beginning, and which it is when
all calls have returned. -/
theorem packages_never_torn {cfg : Cfg} {calls : List Call} {c : Conf Shared Thread}
    (hrun : (prog cfg).Reaches (initial calls) c) :
    ∃ w, Shuffle (calls.map Call.packages) w ∧ c.shared.stream <+: w.flatten ∧
      (c.pool = [] → c.shared.stream = w.flatten) := by
  have h0 := locks_initial cfg calls
  have hc := (locks_valid cfg).holds_run h0 hrun
  obtain ⟨d, hd, hdone⟩ := completes_of_holds hc
  obtain ⟨w, hw, hall⟩ := stream_rest h0 (hrun.trans hd) hdone
  obtain ⟨v, hv, hrest⟩ := stream_rest hc hd hdone
  have hw' : Shuffle (calls.map Call.packages) w := by
    have := hw.shuffle
    rw [initial, List.map_map] at this
    rwa [show Thread.packages ∘ Thread.start = Call.packages from funext packages_start] at this
  have hstream : d.shared.stream = w.flatten := by
    rw [hall]
    rfl
  refine ⟨w, hw', ?_, fun hnil => ?_⟩
  · rw [← hstream, hrest]
    exact List.prefix_append _ _
  · have hv' := hv.shuffle.perm
    rw [hnil, List.map_nil, List.flatten_nil, List.perm_nil] at hv'
    rw [← hstream, hrest, hv', List.flatten_nil, List.append_nil]

/-! ## Whole calls -/

/-- **Where batches leave in one piece**, the stream is at any time a beginning of the
payloads of some of the calls, one after the other, and of all of them in the end. -/
theorem calls_in_order {cfg : Cfg} {calls : List Call} (h : ∀ c ∈ calls, Contiguous cfg c)
    {c : Conf Shared Thread} (hrun : (prog cfg).Reaches (initial calls) c) :
    ∃ order : List Call, order.Subperm calls ∧
      c.shared.stream <+: (order.map Call.payload).flatten ∧
      (c.pool = [] → order.length = calls.length ∧
        c.shared.stream = (order.map Call.payload).flatten) := by
  have hc := (outline_valid cfg calls).holds_run (outline_initial cfg calls h) hrun
  have hcount : ∀ call, c.shared.order.count call ≤ calls.count call := by
    intro call
    have := hc.val_nonneg (.pending call)
    simp only [outline] at this
    omega
  have hsub : c.shared.order.Subperm calls :=
    List.subperm_ext_iff.mpr fun call _ => hcount call
  refine ⟨c.shared.order, hsub, ⟨c.shared.rest, hc.shared.blocks⟩, fun hdone => ?_⟩
  have hw := hc.ledger .writer
  have hcod := hc.ledger .codec
  rw [hdone, total_nil] at hw hcod
  simp only [outline, Int.natCast_eq_zero, Bool.toNat_eq_zero] at hw hcod
  have hrest : c.shared.rest = [] := by
    by_contra hne
    simpa [hw, hcod] using hc.shared.closed hne
  have hback : calls.Subperm c.shared.order := by
    refine List.subperm_ext_iff.mpr fun call _ => ?_
    have := hc.ledger (.pending call)
    rw [hdone, total_nil] at this
    simp only [outline] at this
    omega
  refine ⟨Nat.le_antisymm hsub.length_le hback.length_le, ?_⟩
  rw [← hc.shared.blocks, hrest, List.append_nil]

end Getty.Transport.WriteStream
