import Mathlib.Data.List.Basic
import Mathlib.Data.List.Infix

/-!
# Packets in a row

The bytes of a sequence of packets are the encodings of the packets one after the other.
Somebody who has got a part of them has got some complete packets and the beginning of the
next one, and there is only one way to see it so when no encoding is the beginning of
another one.

## Main results

* `front_cases` — a buffer holds the next packet, or a beginning of it.
* `Split.complete` — with all the bytes come all the packets.
* `Split.of_isPrefix` — the bytes determine the packets.
-/

namespace Getty.Verified.Packets

universe u v

variable {α : Type u} {P : Type v} (enc : P → List α)

/-- The bytes of the packets, in order. -/
def wire (ps : List P) : List α := (ps.map enc).flatten

@[simp] theorem wire_nil : wire enc [] = [] := rfl

@[simp] theorem wire_cons (p : P) (ps : List P) : wire enc (p :: ps) = enc p ++ wire enc ps := rfl

@[simp] theorem wire_append (ps qs : List P) :
    wire enc (ps ++ qs) = wire enc ps ++ wire enc qs := by
  simp [wire]

/-- A buffer with the next bytes holds the whole next packet, or a beginning of it that is
too short. -/
theorem front_cases {p : P} {ps : List P} {buf more : List α}
    (h : buf ++ more = wire enc (p :: ps)) :
    (∃ rest, buf = enc p ++ rest ∧ rest ++ more = wire enc ps) ∨
      (buf <+: enc p ∧ buf.length < (enc p).length) := by
  rw [wire_cons] at h
  rcases List.append_eq_append_iff.mp h with ⟨as, has, hmore⟩ | ⟨bs, hbuf, hbs⟩
  · cases as with
    | nil => exact Or.inl ⟨[], by simpa using has.symm, by simpa using hmore⟩
    | cons x as =>
        refine Or.inr ⟨⟨x :: as, has.symm⟩, ?_⟩
        rw [has, List.length_append, List.length_cons]
        omega
  · exact Or.inl ⟨bs, hbuf, hbs.symm⟩

/-- Of the packets `ps`, the bytes `s` hold `done` and the beginning `buf` of the next one. -/
structure Split (ps : List P) (s : List α) (done : List P) (buf : List α) : Prop where
  bytes : s = wire enc done ++ buf
  todo : ∃ todo, ps = done ++ todo ∧ ∀ p rest, todo = p :: rest → buf.length < (enc p).length

variable {enc}

theorem Split.isPrefix {ps done : List P} {s buf : List α} (h : Split enc ps s done buf) :
    done <+: ps := by
  obtain ⟨todo, rfl, -⟩ := h.todo
  exact List.prefix_append _ _

/-- With all the bytes come all the packets. -/
theorem Split.complete {ps done : List P} {s buf : List α} (h : Split enc ps s done buf)
    (hs : s = wire enc ps) : done = ps ∧ buf = [] := by
  obtain ⟨todo, rfl, hpartial⟩ := h.todo
  have hbuf : buf = wire enc todo := by
    have := h.bytes
    rw [hs, wire_append] at this
    exact (List.append_cancel_left this).symm
  cases todo with
  | nil => exact ⟨by simp, hbuf⟩
  | cons p rest =>
      have hlt := hpartial p rest rfl
      rw [hbuf, wire_cons, List.length_append] at hlt
      omega

/-- No encoding is empty or the beginning of another one. -/
structure SelfDelimiting (enc : P → List α) (ok : P → Prop) : Prop where
  ne_nil : ∀ p, ok p → enc p ≠ []
  prefixFree : ∀ p q, ok p → ok q → enc p <+: enc q → p = q

/-- **The bytes determine the packets.**  What somebody who has got the bytes `s` knows
does not depend on the packets that follow. -/
theorem Split.of_isPrefix {ok : P → Prop} (henc : SelfDelimiting enc ok) {ps qs done : List P}
    {s buf : List α} (hps : ∀ p ∈ ps, ok p) (hqs : ∀ q ∈ qs, ok q) (h : Split enc ps s done buf)
    (hs : s <+: wire enc ps) (hs' : s <+: wire enc qs) : Split enc qs s done buf := by
  induction done generalizing ps qs s with
  | nil =>
      obtain ⟨todo, rfl, htodo⟩ := h.todo
      have hbytes : s = buf := h.bytes
      subst hbytes
      refine ⟨rfl, qs, rfl, ?_⟩
      rintro q qs rfl
      by_contra hle
      have hqpre : enc q <+: s :=
        List.prefix_of_prefix_length_le (List.prefix_append _ _) hs' (Nat.le_of_not_lt hle)
      cases ps with
      | nil =>
          rw [wire_nil, List.prefix_nil] at hs
          rw [hs, List.prefix_nil] at hqpre
          exact henc.ne_nil q (hqs q (List.mem_cons_self ..)) hqpre
      | cons p ps =>
          have hlt := htodo p ps rfl
          have hpre : s <+: enc p :=
            List.prefix_of_prefix_length_le hs (List.prefix_append _ _) (Nat.le_of_lt hlt)
          have heq := henc.prefixFree q p (hqs q (List.mem_cons_self ..))
            (hps p (List.mem_cons_self ..)) (hqpre.trans hpre)
          rw [heq] at hle
          exact hle hlt
  | cons d done ih =>
      obtain ⟨todo, rfl, htodo⟩ := h.todo
      have hd := hps d (List.mem_cons_self ..)
      have hbytes : s = enc d ++ (wire enc done ++ buf) := by
        rw [h.bytes, wire_cons, List.append_assoc]
      subst hbytes
      cases qs with
      | nil =>
          rw [wire_nil, List.prefix_nil] at hs'
          exact absurd (List.append_eq_nil_iff.mp hs').1 (henc.ne_nil d hd)
      | cons q qs =>
          have hq := hqs q (List.mem_cons_self ..)
          have heq : d = q := by
            rcases List.prefix_or_prefix_of_prefix ((List.prefix_append _ _).trans hs')
                (List.prefix_append (enc q) (wire enc qs)) with hpre | hpre
            · exact henc.prefixFree d q hd hq hpre
            · exact (henc.prefixFree q d hq hd hpre).symm
          subst heq
          rw [List.cons_append, wire_cons, List.prefix_append_right_inj] at hs
          rw [wire_cons, List.prefix_append_right_inj] at hs'
          have htail := ih (fun p hp => hps p (List.mem_cons_of_mem d hp))
            (fun p hp => hqs p (List.mem_cons_of_mem d hp)) ⟨rfl, todo, rfl, htodo⟩ hs hs'
          obtain ⟨todo', rfl, htodo'⟩ := htail.todo
          exact ⟨by rw [wire_cons, List.append_assoc], todo', rfl, htodo'⟩

end Getty.Verified.Packets
