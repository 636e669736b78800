import Mathlib.Data.List.Infix

/-!
# Framed streams

A frame set is a prefix-free set of nonempty words, each carrying a payload.
`Leads F ok s ps rest` says that `s` is a run of frames accepted by `ok`
followed by `rest`, and that `rest` does not start with another one: `ps` are
the payloads of the longest leading run of accepted frames.

Prefix-freeness makes the run unique (`Leads.unique`), and the run of a longer
stream is found by continuing from the unconsumed rest (`Leads.append`), which
is the fact every incremental decoder rests on.
-/

namespace Getty.Verified.Framing

/-- A prefix-free set of nonempty words with payloads. -/
structure FrameSet (α : Type) (P : Type) where
  frame : List α → Option P
  frame_nil : frame [] = none
  prefixFree : ∀ f f' p p', frame f = some p → frame f' = some p' → f <+: f' → f = f'

variable {α P : Type}

/-- The word is a frame. -/
def FrameSet.IsFrame (F : FrameSet α P) (f : List α) : Prop := (F.frame f).isSome = true

/-- `s` is the longest run of leading frames accepted by `ok`, with payloads
`ps`, followed by `rest`. -/
inductive FrameSet.Leads (F : FrameSet α P) (ok : List α → Prop) :
    List α → List P → List α → Prop where
  | stop {s : List α} (h : ∀ f, f <+: s → F.IsFrame f → ¬ ok f) : F.Leads ok s [] s
  | frame {f s rest : List α} {p : P} {ps : List P} (hf : F.frame f = some p) (hok : ok f)
      (h : F.Leads ok s ps rest) : F.Leads ok (f ++ s) (p :: ps) rest

theorem FrameSet.isFrame_of_eq {F : FrameSet α P} {f : List α} {p : P}
    (h : F.frame f = some p) : F.IsFrame f := by
  simp [FrameSet.IsFrame, h]

theorem FrameSet.IsFrame.ne_nil {F : FrameSet α P} {f : List α} (h : F.IsFrame f) : f ≠ [] := by
  rintro rfl
  simp [FrameSet.IsFrame, F.frame_nil] at h

theorem FrameSet.IsFrame.eq_of_isPrefix {F : FrameSet α P} {f f' : List α} (h : F.IsFrame f)
    (h' : F.IsFrame f') (hp : f <+: f') : f = f' := by
  obtain ⟨p, hf⟩ := Option.isSome_iff_exists.mp h
  obtain ⟨p', hf'⟩ := Option.isSome_iff_exists.mp h'
  exact F.prefixFree f f' p p' hf hf' hp

/-- Two frames that start the same stream are the same frame. -/
theorem FrameSet.IsFrame.eq_of_both_prefixes {F : FrameSet α P} {f f' s : List α}
    (h : F.IsFrame f) (h' : F.IsFrame f') (hs : f <+: s) (hs' : f' <+: s) : f = f' := by
  rcases List.prefix_or_prefix_of_prefix hs hs' with hp | hp
  · exact h.eq_of_isPrefix h' hp
  · exact (h'.eq_of_isPrefix h hp).symm

namespace FrameSet.Leads

variable {F : FrameSet α P} {ok : List α → Prop}

/-- Nothing accepted is left at the front of the rest. -/
theorem stopped {s rest : List α} {ps : List P} (h : F.Leads ok s ps rest) :
    ∀ f, f <+: rest → F.IsFrame f → ¬ ok f := by
  induction h with
  | stop h => exact h
  | frame _ _ _ ih => exact ih

theorem length_rest_le {s rest : List α} {ps : List P} (h : F.Leads ok s ps rest) :
    rest.length ≤ s.length := by
  induction h with
  | stop _ => exact Nat.le_refl _
  | frame _ _ _ ih =>
      rw [List.length_append]
      omega

/-- The longest run of accepted leading frames is unique. -/
theorem unique {s rest rest' : List α} {ps ps' : List P} (h : F.Leads ok s ps rest)
    (h' : F.Leads ok s ps' rest') : ps = ps' ∧ rest = rest' := by
  induction h generalizing ps' rest' with
  | stop hstop =>
      cases h' with
      | stop _ => exact ⟨rfl, rfl⟩
      | frame hf hok _ =>
          exact absurd hok (hstop _ (List.prefix_append _ _) (FrameSet.isFrame_of_eq hf))
  | @frame f s rest p ps hf hok _ ih =>
      generalize hw : f ++ s = w at h'
      cases h' with
      | stop hstop =>
          exact absurd hok
            (hstop f (hw ▸ List.prefix_append _ _) (FrameSet.isFrame_of_eq hf))
      | @frame f' s' rest' p' ps' hf' hok' h' =>
          have heq : f = f' :=
            (FrameSet.isFrame_of_eq hf).eq_of_both_prefixes (FrameSet.isFrame_of_eq hf')
              (hw ▸ List.prefix_append _ _) (List.prefix_append _ _)
          subst heq
          have hs : s = s' := List.append_cancel_left hw
          subst hs
          have hp : p = p' := by
            rw [hf] at hf'
            exact Option.some.inj hf'
          obtain ⟨hps, hrest⟩ := ih h'
          exact ⟨by rw [hp, hps], hrest⟩

/-- **Incremental decoding.**  The run of a longer stream is the run so far
followed by the run of what was left over and what arrived. -/
theorem append {s c rest rest' : List α} {ps ps' : List P} (h : F.Leads ok s ps rest)
    (h' : F.Leads ok (rest ++ c) ps' rest') : F.Leads ok (s ++ c) (ps ++ ps') rest' := by
  induction h with
  | stop _ => exact h'
  | frame hf hok _ ih =>
      rw [List.append_assoc]
      exact Leads.frame hf hok (ih h')

/-- When no continuation of the rest can start with an accepted frame, the run
is already complete. -/
theorem extend {s c rest : List α} {ps : List P} (h : F.Leads ok s ps rest)
    (hc : ∀ f, f <+: rest ++ c → F.IsFrame f → ¬ ok f) :
    F.Leads ok (s ++ c) ps (rest ++ c) := by
  simpa using h.append (Leads.stop hc)

end FrameSet.Leads

end Getty.Verified.Framing
