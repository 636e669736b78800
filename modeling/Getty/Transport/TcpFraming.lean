import Getty.Verified.Framing
import Getty.Transport.TcpReadLoop

/-!
# TCP framing does not depend on how the stream is cut

The `Reader` is a stateless frame decoder: a package exactly when the data
starts with a frame, "need more" on a proper prefix of a frame, with or without
the length the frame is going to have, and an error when no frame fits.  This
file shows that the receive loop then dispatches the longest leading run of
legal frames of the byte stream, whatever the boundaries of the single reads.

The argument has three parts.  A decode loop over a buffer performs one
longest-run computation (`decode_spec`).  The bytes received so far are always
the frames dispatched so far followed by `pktBuf` (`Consumed`), and the runs of
consecutive buffers compose (`FrameSet.Leads.append`).  An early rejection is
final, because no continuation of a rejected rest starts with a legal frame
(`FrameDecoder.rejected_final`).

Whether the loop returns an error is decided by the last rest too, with one
exception, which is why `FrameDecoder.Persistent` and `TruncatedOversized`
appear in the last theorem: on a stream that ends inside an oversized frame the
loop only learns the length if the decoder reports it at a read boundary.
-/

namespace Getty.Transport.Tcp

open Getty.Verified.Framing

variable {P : Type}

/-! ## Stateless frame decoders -/

/-- A stateless frame decoder for the frames `frame`. -/
structure FrameDecoder (P : Type) where
  frame : Bytes → Option P
  read : Bytes → ReadResult P
  frame_nil : frame [] = none
  /-- A package of length `n` exactly when the first `n` bytes form a frame. -/
  complete : ∀ data p n, read data = ⟨some p, n, none⟩ ↔
    ∃ k : Nat, n = k ∧ 0 < k ∧ k ≤ data.length ∧ frame (data.take k) = some p
  /-- No package on a proper prefix of a frame, and no length but the final one. -/
  pending : ∀ data f, data ≠ [] → (frame f).isSome = true → data <+: f → data ≠ f →
    read data = ⟨none, 0, none⟩ ∨ read data = ⟨none, f.length, none⟩
  /-- An error on data that no frame can start with. -/
  broken : ∀ data, data ≠ [] →
    (∀ f, (frame f).isSome = true → ¬ f <+: data ∧ ¬ data <+: f) → (read data).err.isSome = true

theorem FrameDecoder.read_of_prefix (D : FrameDecoder P) {f data : Bytes} {p : P}
    (hf : D.frame f = some p) (h : f <+: data) : D.read data = ⟨some p, f.length, none⟩ := by
  rw [D.complete]
  refine ⟨f.length, rfl, ?_, h.length_le, ?_⟩
  · apply List.length_pos_of_ne_nil
    rintro rfl
    rw [D.frame_nil] at hf
    cases hf
  · rw [← List.prefix_iff_eq_take.mp h]
    exact hf

/-- The frames of a decoder are prefix free: two frames at the front of the
same data would both have to be its package. -/
def FrameDecoder.frames (D : FrameDecoder P) : FrameSet UInt8 P where
  frame := D.frame
  frame_nil := D.frame_nil
  prefixFree f f' p p' hf hf' h := by
    have h1 := D.read_of_prefix hf h
    have h2 := D.read_of_prefix hf' (List.prefix_refl f')
    rw [h1] at h2
    simp only [ReadResult.mk.injEq] at h2
    exact h.eq_of_length (Int.ofNat_inj.mp h2.2.1)

/-- Once the decoder has reported the length of an incomplete frame, it keeps
reporting it while the frame grows. -/
def FrameDecoder.Persistent (D : FrameDecoder P) : Prop :=
  ∀ f d d', (D.frame f).isSome = true → d ≠ [] → d <+: d' → d' <+: f → d' ≠ f →
    (D.read d).pkgLen = f.length → (D.read d').pkgLen = f.length

/-- The length is legal under `maxMsgLen`; zero and below mean unlimited. -/
def Legal (maxMsgLen : Int) (f : Bytes) : Prop := maxMsgLen ≤ 0 ∨ (f.length : Int) ≤ maxMsgLen

/-- `err` after a `Reader` call on the rest of a buffer. -/
def FrameDecoder.verdict (D : FrameDecoder P) (maxMsgLen : Int) (rest : Bytes) :
    Option LoopErr :=
  checkPackage maxMsgLen (D.read rest) rest.length

/-- A decoder on a session that stays open, with a fixed limit. -/
def FrameDecoder.env (D : FrameDecoder P) (maxMsgLen : Int) : Env P where
  read _ data := D.read data
  maxMsgLen _ := maxMsgLen
  taskOpen _ := true

/-- `err` when the decode loop has nothing left to dispatch. -/
def FrameDecoder.restErr (D : FrameDecoder P) (maxMsgLen : Int) (rest : Bytes) :
    Option LoopErr :=
  if rest = [] then none else D.verdict maxMsgLen rest

section Verdict

variable (D : FrameDecoder P) (maxMsgLen : Int)

/-- A frame at the front is rejected exactly when it is too long. -/
theorem FrameDecoder.verdict_of_frame {f rest : Bytes} {p : P} (hf : D.frame f = some p)
    (h : f <+: rest) : D.verdict maxMsgLen rest = none ↔ Legal maxMsgLen f := by
  simp only [FrameDecoder.verdict, D.read_of_prefix hf h, checkPackage, Legal]
  by_cases hpos : 0 < maxMsgLen
  · by_cases hlong : maxMsgLen < (f.length : Int)
    · simp only [hpos, hlong, if_true]
      constructor
      · intro h; cases h
      · intro h; omega
    · simp [hpos, hlong]
      omega
  · simp only [hpos, if_false, true_iff]
    omega

/-- A proper prefix of a frame is rejected when the reported length, or the
prefix itself, is too long. -/
theorem FrameDecoder.verdict_of_pending {f rest : Bytes} (hne : rest ≠ [])
    (hf : (D.frame f).isSome = true) (h : rest <+: f) (hneq : rest ≠ f) :
    (D.verdict maxMsgLen rest).isSome = true ↔
      0 < maxMsgLen ∧ ((D.read rest).pkgLen = f.length ∧ maxMsgLen < (f.length : Int) ∨
        maxMsgLen < (rest.length : Int)) := by
  have hlen := h.length_le
  rcases D.pending rest f hne hf h hneq with hr | hr
  · simp only [FrameDecoder.verdict, hr, checkPackage]
    by_cases hpos : 0 < maxMsgLen
    · by_cases hlong : maxMsgLen < (rest.length : Int)
      · have : ¬ maxMsgLen < 0 := by omega
        simp [hpos, hlong, this]
      · have : ¬ maxMsgLen < 0 := by omega
        simp only [hpos, hlong, this, if_true, if_false, and_false, Option.isSome_none,
          Bool.false_eq_true, or_false, true_and, false_iff]
        omega
    · simp [hpos]
  · simp only [FrameDecoder.verdict, hr, checkPackage]
    by_cases hpos : 0 < maxMsgLen
    · by_cases hfin : maxMsgLen < (f.length : Int)
      · simp [hpos, hfin]
      · by_cases hlong : maxMsgLen < (rest.length : Int)
        · simp [hpos, hfin, hlong]
        · simp [hpos, hfin, hlong]
    · simp [hpos]

/-- A buffer the decoder does not reject, with no legal frame at its front, is
a proper prefix of some frame. -/
theorem FrameDecoder.pending_of_verdict_none {rest : Bytes} (hne : rest ≠ [])
    (hstop : ∀ f, f <+: rest → D.frames.IsFrame f → ¬ Legal maxMsgLen f)
    (hv : D.verdict maxMsgLen rest = none) :
    ∃ f, (D.frame f).isSome = true ∧ rest <+: f ∧ rest ≠ f := by
  by_contra hno
  have hbroken : ∀ f, (D.frame f).isSome = true → ¬ f <+: rest ∧ ¬ rest <+: f := by
    intro f hf
    have hfront : ¬ f <+: rest := by
      intro hp
      obtain ⟨p, hfp⟩ := Option.isSome_iff_exists.mp hf
      exact hstop f hp hf ((D.verdict_of_frame maxMsgLen hfp hp).mp hv)
    refine ⟨hfront, fun hp => ?_⟩
    have heq : rest = f := by
      by_contra hneq
      exact hno ⟨f, hf, hp, hneq⟩
    exact hfront (heq ▸ List.prefix_refl _)
  obtain ⟨msg, herr⟩ := Option.isSome_iff_exists.mp (D.broken rest hne hbroken)
  simp [FrameDecoder.verdict, checkPackage, herr] at hv

/-- **Rejections are final.**  Whatever follows a rejected rest, it does not
make a legal frame. -/
theorem FrameDecoder.rejected_final {rest : Bytes} (hne : rest ≠ [])
    (hstop : ∀ f, f <+: rest → D.frames.IsFrame f → ¬ Legal maxMsgLen f)
    (hv : (D.verdict maxMsgLen rest).isSome = true) (c : Bytes) :
    ∀ f, f <+: rest ++ c → D.frames.IsFrame f → ¬ Legal maxMsgLen f := by
  intro f hf hframe hlegal
  rcases List.prefix_or_prefix_of_prefix hf (List.prefix_append rest c) with hp | hp
  · exact hstop f hp hframe hlegal
  · by_cases heq : rest = f
    · exact hstop f (heq ▸ List.prefix_refl _) hframe hlegal
    · have hlen := hp.length_le
      obtain ⟨hpos, hlong⟩ := (D.verdict_of_pending maxMsgLen hne hframe hp heq).mp hv
      rcases hlegal with hlegal | hlegal
      · omega
      · omega

end Verdict

/-! ## One decode loop -/

/-- **One decode loop is one longest run.**  It dispatches the legal frames at
the front of the buffer, keeps the rest, and leaves in `err` the verdict on the
rest. -/
theorem decode_spec (D : FrameDecoder P) (maxMsgLen : Int) (fuel : Nat) (st : State P)
    (hfuel : st.pktBuf.length ≤ fuel) :
    ∃ ps rest st', D.frames.Leads (Legal maxMsgLen) st.pktBuf ps rest ∧
      decode (D.env maxMsgLen) fuel st = .ok st' ∧
      st'.pktBuf = rest ∧ st'.messages = st.messages ++ ps ∧
      st'.err = (if st.pktBuf = [] then st.err else D.restErr maxMsgLen rest) ∧
      st'.exit = (st.exit || (D.restErr maxMsgLen rest).isSome) := by
  induction fuel generalizing st with
  | zero =>
      have hnil : st.pktBuf = [] := List.eq_nil_of_length_eq_zero (by omega)
      refine ⟨[], [], st, ?_, decode_nil _ _ st hnil, hnil, by simp, by simp [hnil],
        by simp [FrameDecoder.restErr]⟩
      rw [hnil]
      exact .stop (fun f hf hframe => absurd (List.prefix_nil.mp hf) hframe.ne_nil)
  | succ fuel ih =>
      by_cases hnil : st.pktBuf = []
      · refine ⟨[], [], st, ?_, decode_nil _ _ st hnil, hnil, by simp, by simp [hnil],
          by simp [FrameDecoder.restErr]⟩
        rw [hnil]
        exact .stop (fun f hf hframe => absurd (List.prefix_nil.mp hf) hframe.ne_nil)
      · by_cases hfront : ∃ f, f <+: st.pktBuf ∧ D.frames.IsFrame f ∧ Legal maxMsgLen f
        · obtain ⟨f, hf, hframe, hlegal⟩ := hfront
          obtain ⟨p, hfp⟩ := Option.isSome_iff_exists.mp hframe
          have hread := D.read_of_prefix hfp hf
          have hcheck : checkPackage maxMsgLen (D.read st.pktBuf) st.pktBuf.length = none :=
            (D.verdict_of_frame maxMsgLen hfp hf).mpr hlegal
          have hnext : next f.length st.pktBuf = some (st.pktBuf.drop f.length) := by
            simp [next]
          obtain ⟨t, ht⟩ := hf
          have hdrop : st.pktBuf.drop f.length = t := by rw [← ht, List.drop_left]
          have hpos : 0 < f.length := List.length_pos_of_ne_nil hframe.ne_nil
          have hlen : f.length + t.length = st.pktBuf.length := by
            rw [← ht, List.length_append]
          obtain ⟨ps, rest, st', hleads, hdec, hbuf, hmsg, herr, hexit⟩ := ih
            { st with
              err := none, pktBuf := t, reads := st.reads + 1
              messages := st.messages ++ [p] } (by dsimp only; omega)
          refine ⟨p :: ps, rest, st', ?_, ?_, hbuf, ?_, ?_, hexit⟩
          · rw [← ht]
            exact .frame hfp hlegal hleads
          · rw [decode, if_neg hnil]
            simp only [FrameDecoder.env, hcheck]
            simp only [hread, addTask, if_true, hnext, hdrop]
            exact hdec
          · simpa using hmsg
          · rw [herr, if_neg hnil]
            -- an empty tail leaves `err` cleared by this very iteration
            by_cases htnil : t = []
            · have hrest : rest = [] := by
                have := hleads.length_rest_le
                dsimp only at this
                rw [htnil] at this
                exact List.eq_nil_of_length_eq_zero (Nat.le_zero.mp this)
              simp [htnil, hrest, FrameDecoder.restErr]
            · simp [htnil]
        · have hstop : ∀ f, f <+: st.pktBuf → D.frames.IsFrame f → ¬ Legal maxMsgLen f :=
            fun f hf hframe hlegal => hfront ⟨f, hf, hframe, hlegal⟩
          have hrest : D.restErr maxMsgLen st.pktBuf = D.verdict maxMsgLen st.pktBuf := by
            simp [FrameDecoder.restErr, hnil]
          cases hv : D.verdict maxMsgLen st.pktBuf with
          | some e =>
              refine ⟨[], st.pktBuf,
                { st with err := some e, exit := true, reads := st.reads + 1 },
                .stop hstop, ?_, rfl, by simp, by simp [hnil, hrest, hv], by simp [hrest, hv]⟩
              rw [decode, if_neg hnil]
              simp only [FrameDecoder.env]
              rw [show checkPackage maxMsgLen (D.read st.pktBuf) st.pktBuf.length = some e from hv]
          | none =>
              have hpkg : (D.read st.pktBuf).pkg = none := by
                obtain ⟨f, hf, hp, hneq⟩ := D.pending_of_verdict_none maxMsgLen hnil hstop hv
                rcases D.pending st.pktBuf f hnil hf hp hneq with hr | hr <;> rw [hr]
              refine ⟨[], st.pktBuf, { st with err := none, reads := st.reads + 1 },
                .stop hstop, ?_, rfl, by simp, by simp [hnil, hrest, hv], by simp [hrest, hv]⟩
              rw [decode, if_neg hnil]
              simp only [FrameDecoder.env]
              rw [show checkPackage maxMsgLen (D.read st.pktBuf) st.pktBuf.length = none from hv]
              simp only [hpkg]

/-! ## Cuts of a stream -/

/-- The rounds are a cut of the stream on a session that stays open: reads of
1..4096 bytes, timeouts in between, and EOF alone or with the last bytes. -/
inductive Cut : Bytes → List Round → Prop where
  | eof {c : Bytes} (hle : c.length ≤ maxReadBufLen) : Cut c [⟨false, c, some .eof⟩]
  | timeout {s : Bytes} {rs : List Round} (h : Cut s rs) :
      Cut s (⟨false, [], some .timeout⟩ :: rs)
  | bytes {c s : Bytes} {rs : List Round} (hne : c ≠ []) (hle : c.length ≤ maxReadBufLen)
      (h : Cut s rs) : Cut (c ++ s) (⟨false, c, none⟩ :: rs)

/-- **Leftover invariant.**  Between two rounds the bytes received so far are
the frames dispatched so far followed by `pktBuf`, which the decoder accepts as
the beginning of another frame. -/
structure Consumed (D : FrameDecoder P) (maxMsgLen : Int) (s : Bytes) (st : State P) :
    Prop where
  running : st.exit = false
  leads : D.frames.Leads (Legal maxMsgLen) s st.messages st.pktBuf
  clean : D.restErr maxMsgLen st.pktBuf = none

/-- What a finished run says about the stream: the dispatched packages are its
longest leading run of legal frames, a rejected rest is an error, and an error
is the rejection of some beginning of the rest. -/
def Settles (D : FrameDecoder P) (maxMsgLen : Int) (s : Bytes) (o : Outcome P) : Prop :=
  ∃ err ps rest, o = .returned err ps ∧ D.frames.Leads (Legal maxMsgLen) s ps rest ∧
    ((D.restErr maxMsgLen rest).isSome = true → err.isSome = true) ∧
    (err.isSome = true →
      ∃ r, r ≠ [] ∧ r <+: rest ∧ (D.verdict maxMsgLen r).isSome = true)

section Cuts

variable (D : FrameDecoder P) (maxMsgLen : Int)

private theorem consumed_init : Consumed D maxMsgLen [] State.init where
  running := rfl
  leads := .stop (fun _ hf hframe => absurd (List.prefix_nil.mp hf) hframe.ne_nil)
  clean := rfl

/-- A round that brings bytes, without an error or together with EOF. -/
private theorem recvRound_bytes {s c : Bytes} {st : State P} (e : Option RecvErr) (fuel : Nat)
    (hst : Consumed D maxMsgLen s st) (hne : c ≠ []) (hfuel : s.length + c.length ≤ fuel) :
    ∃ st', recvRound (D.env maxMsgLen) fuel ⟨c, e⟩ st = .ok st' ∧
      D.frames.Leads (Legal maxMsgLen) (s ++ c) st'.messages st'.pktBuf ∧
      st'.err = D.restErr maxMsgLen st'.pktBuf ∧
      st'.exit = ((st.afterRecv e).exit || (D.restErr maxMsgLen st'.pktBuf).isSome) := by
  have hle := hst.leads.length_rest_le
  have hbuf : st.pktBuf ++ c ≠ [] := fun h => hne (List.append_eq_nil_iff.mp h).2
  have hlen : ((st.afterRecv e).buffer c).pktBuf.length ≤ fuel := by
    simp only [buffer_pktBuf, afterRecv_pktBuf, List.length_append]
    omega
  obtain ⟨ps, rest, st', hleads, hdec, rfl, hmsg, herr, hexit⟩ :=
    decode_spec D maxMsgLen fuel ((st.afterRecv e).buffer c) hlen
  simp only [buffer_pktBuf, afterRecv_pktBuf, buffer_messages, afterRecv_messages,
    buffer_exit] at hleads hmsg herr hexit
  refine ⟨st', ?_, ?_, ?_, hexit⟩
  · simp only [recvRound, hne, if_false]
    exact hdec
  · rw [hmsg]
    exact hst.leads.append hleads
  · rw [herr, if_neg hbuf]

/-- A rejected rest settles the stream, whatever was still to come. -/
private theorem settles_of_rejected {s : Bytes} {st : State P} (more : Bytes)
    (hleads : D.frames.Leads (Legal maxMsgLen) s st.messages st.pktBuf)
    (herr : st.err = D.restErr maxMsgLen st.pktBuf)
    (hrej : (D.restErr maxMsgLen st.pktBuf).isSome = true) :
    Settles D maxMsgLen (s ++ more) (.returned st.err st.messages) := by
  have hne : st.pktBuf ≠ [] := by
    intro hnil
    simp [FrameDecoder.restErr, hnil] at hrej
  have hv : (D.verdict maxMsgLen st.pktBuf).isSome = true := by
    simpa [FrameDecoder.restErr, hne] using hrej
  refine ⟨st.err, st.messages, st.pktBuf ++ more, rfl,
    hleads.extend (D.rejected_final maxMsgLen hne hleads.stopped hv more), ?_, ?_⟩
  · intro _
    rw [herr]
    exact hrej
  · intro _
    exact ⟨st.pktBuf, hne, List.prefix_append _ _, hv⟩

/-- **Run lemma.**  From a state with the leftover invariant, the loop over any
cut of the remaining bytes settles the whole stream. -/
theorem loop_settles {s : Bytes} {rs : List Round} (hcut : Cut s rs) (fuel : Nat)
    (s₀ : Bytes) (st : State P) (hst : Consumed D maxMsgLen s₀ st)
    (hfuel : s₀.length + s.length ≤ fuel) :
    Settles D maxMsgLen (s₀ ++ s) (loop (D.env maxMsgLen) fuel rs st) := by
  induction hcut generalizing s₀ st with
  | @eof c _ =>
      simp only [loop, Bool.false_eq_true, if_false]
      by_cases hc : c = []
      · subst hc
        -- EOF alone: nothing to decode, and the rest is an unfinished frame
        refine ⟨none, st.messages, st.pktBuf, ?_, ?_, ?_, ?_⟩
        · simp [recvRound, State.afterRecv]
        · simpa using hst.leads
        · simp [hst.clean]
        · simp
      · obtain ⟨st', hr, hleads, herr, hexit⟩ :=
          recvRound_bytes D maxMsgLen (some .eof) fuel hst hc hfuel
        have hx : st'.exit = true := by simp [hexit, State.afterRecv]
        rw [hr]
        simp only [hx, if_true]
        refine ⟨st'.err, st'.messages, st'.pktBuf, rfl, hleads, by rw [herr]; exact id, ?_⟩
        intro hsome
        by_cases hne : st'.pktBuf = []
        · simp [herr, FrameDecoder.restErr, hne] at hsome
        · exact ⟨st'.pktBuf, hne, List.prefix_refl _, by
            simpa [herr, FrameDecoder.restErr, hne] using hsome⟩
  | timeout _ ih =>
      have hrun := ih s₀ (st.afterRecv (some .timeout)) ⟨hst.running, hst.leads, hst.clean⟩ hfuel
      have hx : (st.afterRecv (some .timeout)).exit = false := hst.running
      simpa [loop, recvRound, hx] using hrun
  | @bytes c s rs hne _ _ ih =>
      rw [List.length_append] at hfuel
      obtain ⟨st', hr, hleads, herr, hexit⟩ :=
        recvRound_bytes D maxMsgLen none fuel hst hne (by omega)
      have hx : st'.exit = (D.restErr maxMsgLen st'.pktBuf).isSome := by
        rw [hexit]
        simp [State.afterRecv, hst.running]
      simp only [loop, Bool.false_eq_true, if_false, hr, hx]
      rw [← List.append_assoc]
      cases hrej : (D.restErr maxMsgLen st'.pktBuf).isSome with
      | true => exact settles_of_rejected D maxMsgLen s hleads herr hrej
      | false =>
          exact ih (s₀ ++ c) st'
            ⟨hx.trans hrej, hleads, Option.isNone_iff_eq_none.mp (by simpa using hrej)⟩
            (by rw [List.length_append]; omega)

theorem handleTCPPackage_settles {s : Bytes} {rs : List Round} (hcut : Cut s rs) {fuel : Nat}
    (hfuel : s.length ≤ fuel) :
    Settles D maxMsgLen s (handleTCPPackage (D.env maxMsgLen) fuel none rs) := by
  have h := loop_settles D maxMsgLen hcut fuel [] State.init (consumed_init D maxMsgLen)
    (by simpa using hfuel)
  rw [List.nil_append] at h
  exact h

end Cuts

/-! ## Agreement of two cuts -/

/-- The stream ends inside a frame that is too long, and too early for the
length of the rest alone to show it. -/
def TruncatedOversized (D : FrameDecoder P) (maxMsgLen : Int) (s : Bytes) : Prop :=
  ∃ ps rest f, D.frames.Leads (Legal maxMsgLen) s ps rest ∧ D.frames.IsFrame f ∧
    rest ≠ [] ∧ rest <+: f ∧ rest ≠ f ∧ 0 < maxMsgLen ∧ maxMsgLen < (f.length : Int) ∧
    (rest.length : Int) ≤ maxMsgLen

/-- A beginning of the rest is rejected although the rest is not: only a
decoder that withdraws the length of an oversized frame can do that. -/
private theorem truncatedOversized_of_withdrawn (D : FrameDecoder P) (maxMsgLen : Int)
    {s rest r : Bytes} {ps : List P} (hleads : D.frames.Leads (Legal maxMsgLen) s ps rest)
    (hclean : D.restErr maxMsgLen rest = none) (hne : r ≠ []) (hr : r <+: rest)
    (hv : (D.verdict maxMsgLen r).isSome = true) :
    TruncatedOversized D maxMsgLen s ∧ ¬ D.Persistent := by
  have hrest : rest ≠ [] := by
    rintro rfl
    exact hne (List.prefix_nil.mp hr)
  have hvn : D.verdict maxMsgLen rest = none := by
    simpa [FrameDecoder.restErr, hrest] using hclean
  obtain ⟨f, hf, hp, hneq⟩ := D.pending_of_verdict_none maxMsgLen hrest hleads.stopped hvn
  have hrf : r ≠ f := by
    rintro rfl
    exact hneq (hp.eq_of_length (Nat.le_antisymm hp.length_le hr.length_le))
  have hrej : ¬ (D.verdict maxMsgLen rest).isSome = true := by simp [hvn]
  rw [D.verdict_of_pending maxMsgLen hrest hf hp hneq] at hrej
  rw [D.verdict_of_pending maxMsgLen hne hf (hr.trans hp) hrf] at hv
  have hlen := hr.length_le
  obtain ⟨hpos, ⟨hfin, hlong⟩ | hshort⟩ := hv
  · refine ⟨⟨ps, rest, f, hleads, hf, hrest, hp, hneq, hpos, hlong, ?_⟩, ?_⟩
    · by_contra hgt
      exact hrej ⟨hpos, Or.inr (by omega)⟩
    · intro hpers
      exact hrej ⟨hpos, Or.inl ⟨hpers f r rest hf hne hr hp hneq hfin, hlong⟩⟩
  · exact absurd ⟨hpos, Or.inr (by omega)⟩ hrej

/-- **Framing does not depend on the cut.**  Two cuts of a stream dispatch the
same packages, the longest leading run of legal frames; and they agree on
whether there is an error when the decoder does not withdraw a length it has
reported, or the stream does not end inside an oversized frame. -/
theorem framing_cut_independent (D : FrameDecoder P) (maxMsgLen : Int) (s : Bytes)
    (rs rs' : List Round) (hcut : Cut s rs) (hcut' : Cut s rs') (fuel fuel' : Nat)
    (hfuel : s.length ≤ fuel) (hfuel' : s.length ≤ fuel') :
    ∃ err err' ps rest,
      handleTCPPackage (D.env maxMsgLen) fuel none rs = .returned err ps ∧
      handleTCPPackage (D.env maxMsgLen) fuel' none rs' = .returned err' ps ∧
      D.frames.Leads (Legal maxMsgLen) s ps rest ∧
      (D.Persistent ∨ ¬ TruncatedOversized D maxMsgLen s → err.isSome = err'.isSome) := by
  obtain ⟨err, ps, rest, hret, hleads, hrej, hwhy⟩ :=
    handleTCPPackage_settles D maxMsgLen hcut hfuel
  obtain ⟨err', ps', rest', hret', hleads', hrej', hwhy'⟩ :=
    handleTCPPackage_settles D maxMsgLen hcut' hfuel'
  obtain ⟨rfl, rfl⟩ := hleads.unique hleads'
  refine ⟨err, err', ps, rest, hret, hret', hleads, fun hside => ?_⟩
  cases hclean : D.restErr maxMsgLen rest with
  | some e => rw [hrej (by rw [hclean]; rfl), hrej' (by rw [hclean]; rfl)]
  | none =>
      have hnone : ∀ {err : Option LoopErr},
          (err.isSome = true → ∃ r, r ≠ [] ∧ r <+: rest ∧
            (D.verdict maxMsgLen r).isSome = true) → err.isSome = false := by
        intro err hwhy
        by_contra hsome
        obtain ⟨r, hne, hr, hv⟩ := hwhy (by rwa [Bool.not_eq_false] at hsome)
        obtain ⟨htrunc, hnot⟩ := truncatedOversized_of_withdrawn D maxMsgLen hleads hclean hne hr hv
        rcases hside with hside | hside
        · exact hnot hside
        · exact hside htrunc
      rw [hnone hwhy, hnone hwhy']

/-- A decoder for the single frame `[1, 2, 3]` that reports the final length on
`[1]` and withdraws it on `[1, 2]`. -/
def withdrawing : FrameDecoder Unit where
  frame f := if f = [1, 2, 3] then some () else none
  read data :=
    if data = [1] then ⟨none, 3, none⟩
    else if data = [1, 2] then ⟨none, 0, none⟩
    else if data.take 3 = [1, 2, 3] then ⟨some (), 3, none⟩
    else ⟨none, 0, some "no frame"⟩
  frame_nil := rfl
  complete data p n := by
    constructor
    · intro h
      split at h
      · cases h
      · split at h
        · cases h
        · split at h
          · next htake =>
              simp only [ReadResult.mk.injEq] at h
              refine ⟨3, h.2.1.symm, by decide, ?_, by rw [if_pos htake]⟩
              have := congrArg List.length htake
              simp only [List.length_take, List.length_cons, List.length_nil] at this
              omega
          · cases h
    · rintro ⟨k, rfl, -, hle, hk⟩
      split at hk
      · next htake =>
          have hlen := congrArg List.length htake
          simp only [List.length_take, List.length_cons, List.length_nil] at hlen
          obtain rfl : k = 3 := by omega
          have h1 : data ≠ [1] := by rintro rfl; cases htake
          have h2 : data ≠ [1, 2] := by rintro rfl; cases htake
          simp [h1, h2, htake]
      · cases hk
  pending data f hne hf hp hneq := by
    split at hf
    · next heq =>
        subst heq
        have hmem : data ∈ [1, 2, 3].inits := (List.mem_inits data [1, 2, 3]).mpr hp
        simp only [List.inits, List.mem_cons, List.map, List.not_mem_nil, or_false] at hmem
        rcases hmem with rfl | rfl | rfl | rfl
        · exact absurd rfl hne
        · exact Or.inr rfl
        · exact Or.inl rfl
        · exact absurd rfl hneq
    · cases hf
  broken data hne h := by
    obtain ⟨h1, h2⟩ := h [1, 2, 3] rfl
    have hd1 : data ≠ [1] := by rintro rfl; exact h2 (by decide)
    have hd2 : data ≠ [1, 2] := by rintro rfl; exact h2 (by decide)
    have htake : data.take 3 ≠ [1, 2, 3] := fun h => h1 (h ▸ List.take_prefix 3 data)
    simp [hd1, hd2, htake]

/-- One package and the beginning of another, in one read and in four. -/
theorem framing_cut_independent_two_cuts :
    ¬ TruncatedOversized withdrawing 3 [1, 2, 3, 1, 2] ∧
    ∃ err err' ps rest,
      handleTCPPackage (withdrawing.env 3) 5 none [⟨false, [1, 2, 3, 1, 2], some .eof⟩] =
        .returned err ps ∧
      handleTCPPackage (withdrawing.env 3) 5 none
        [⟨false, [1], none⟩, ⟨false, [], some .timeout⟩, ⟨false, [2, 3, 1], none⟩,
          ⟨false, [2], none⟩, ⟨false, [], some .eof⟩] = .returned err' ps ∧
      withdrawing.frames.Leads (Legal 3) [1, 2, 3, 1, 2] ps rest ∧
      (withdrawing.Persistent ∨ ¬ TruncatedOversized withdrawing 3 [1, 2, 3, 1, 2] →
        err.isSome = err'.isSome) := by
  constructor
  · rintro ⟨ps, rest, f, -, hf, -, -, -, -, hlong, -⟩
    have hf3 : f = [1, 2, 3] := by
      by_contra hne
      simp [FrameSet.IsFrame, FrameDecoder.frames, withdrawing, hne] at hf
    subst hf3
    exact absurd hlong (by decide)
  · have hcut : Cut [1, 2, 3, 1, 2]
        [⟨false, [1], none⟩, ⟨false, [], some .timeout⟩, ⟨false, [2, 3, 1], none⟩,
          ⟨false, [2], none⟩, ⟨false, [], some .eof⟩] :=
      .bytes (c := [1]) (by decide) (by decide)
        (.timeout (.bytes (c := [2, 3, 1]) (by decide) (by decide)
          (.bytes (c := [2]) (by decide) (by decide) (.eof (c := []) (by decide)))))
    exact framing_cut_independent withdrawing 3 [1, 2, 3, 1, 2] _ _ (.eof (by decide)) hcut
      5 5 (by decide) (by decide)

/-- Two cuts that disagree on the error: `[1, 2]` ends inside a frame of three
bytes, the limit is two, and only the read boundary after `[1]` shows it. -/
theorem framing_error_depends_on_cut :
    Cut [1, 2] [⟨false, [1, 2], some .eof⟩] ∧
    Cut [1, 2] [⟨false, [1], none⟩, ⟨false, [2], some .eof⟩] ∧
    handleTCPPackage (withdrawing.env 2) 2 none [⟨false, [1, 2], some .eof⟩] =
      .returned none [] ∧
    handleTCPPackage (withdrawing.env 2) 2 none [⟨false, [1], none⟩, ⟨false, [2], some .eof⟩] =
      .returned (some (.pkgLenAbove 3 2)) [] :=
  ⟨.eof (by decide), .bytes (c := [1]) (by decide) (by decide) (.eof (c := [2]) (by decide)),
    rfl, rfl⟩

end Getty.Transport.Tcp
