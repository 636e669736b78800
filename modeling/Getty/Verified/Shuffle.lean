import Mathlib.Data.List.Perm.Subperm

/-!
# Interleavings of finite sequences

`Shuffle ls w` says that `w` contains the elements of the sequences `ls`, those of
each sequence in their order: it arises by taking the first element of any of the
sequences again and again.  A sequence that is used up is dropped, so that `ls` can
follow the live threads of a pool.

## Main results

* `Shuffle.take_append` — several elements of one sequence may be taken in a row.
* `Shuffle.perm` — nothing is lost and nothing is added.
* `Shuffle.of_map` — an interleaving of images is the image of an interleaving.
* `subperm_of_map` — a selection of images, in any order, is the image of a selection.
-/

namespace Getty.Verified

universe u v

variable {α : Type u} {β : Type v}

/-- `w` is an interleaving of the sequences `ls`. -/
inductive Shuffle : List (List α) → List α → Prop where
  | nil : Shuffle [] []
  | drop {l r : List (List α)} {w : List α} (h : Shuffle (l ++ r) w) : Shuffle (l ++ [] :: r) w
  | take {l r : List (List α)} {a : α} {as w : List α} (h : Shuffle (l ++ as :: r) w) :
      Shuffle (l ++ (a :: as) :: r) (a :: w)

namespace Shuffle

/-- Several elements of one sequence come first. -/
theorem take_append {l r : List (List α)} {as w : List α} (xs : List α)
    (h : Shuffle (l ++ as :: r) w) : Shuffle (l ++ (xs ++ as) :: r) (xs ++ w) := by
  induction xs with
  | nil => exact h
  | cons x xs ih => exact take ih

/-- A sequence may be used up at once. -/
theorem take_all {l r : List (List α)} {w : List α} (xs : List α) (h : Shuffle (l ++ r) w) :
    Shuffle (l ++ xs :: r) (xs ++ w) := by
  have hxs : Shuffle (l ++ (xs ++ []) :: r) (xs ++ w) := take_append xs (drop h)
  rwa [List.append_nil] at hxs

/-- **Nothing is lost and nothing is added.** -/
theorem perm {ls : List (List α)} {w : List α} (h : Shuffle ls w) : w.Perm ls.flatten := by
  induction h with
  | nil => exact List.Perm.refl _
  | drop _ ih => simpa using ih
  | @take l r a as w _ ih =>
      have hcons : (a :: w).Perm (a :: (l ++ as :: r).flatten) := ih.cons a
      refine hcons.trans ?_
      simp only [List.flatten_append, List.flatten_cons, List.cons_append]
      exact List.perm_middle.symm

/-- An interleaving of images is the image of an interleaving. -/
theorem of_map {f : α → β} {ls : List (List α)} {w : List β}
    (h : Shuffle (ls.map (List.map f)) w) : ∃ v, w = v.map f ∧ Shuffle ls v := by
  generalize hm : ls.map (List.map f) = ms at h
  induction h generalizing ls with
  | nil =>
      rw [List.map_eq_nil_iff] at hm
      subst hm
      exact ⟨[], rfl, nil⟩
  | drop _ ih =>
      obtain ⟨l, r', rfl, rfl, hr⟩ := List.map_eq_append_iff.mp hm
      obtain ⟨x, r, rfl, hx, rfl⟩ := List.map_eq_cons_iff.mp hr
      obtain rfl := List.map_eq_nil_iff.mp hx
      obtain ⟨v, hv, hs⟩ := ih (List.map_append ..)
      exact ⟨v, hv, drop hs⟩
  | take _ ih =>
      obtain ⟨l, r', rfl, rfl, hr⟩ := List.map_eq_append_iff.mp hm
      obtain ⟨x, r, rfl, hx, rfl⟩ := List.map_eq_cons_iff.mp hr
      obtain ⟨a, as, rfl, rfl, rfl⟩ := List.map_eq_cons_iff.mp hx
      have hmap : (l ++ as :: r).map (List.map f) = l.map (List.map f) ++ as.map f ::
          r.map (List.map f) := by simp
      obtain ⟨v, rfl, hs⟩ := ih hmap
      exact ⟨a :: v, rfl, take hs⟩

end Shuffle

private theorem perm_of_map {f : α → β} {l : List β} {xs : List α} (h : l.Perm (xs.map f)) :
    ∃ ys : List α, ys.Perm xs ∧ ys.map f = l := by
  have hcomp : Relation.Comp (List.Forall₂ fun a b => f a = b) List.Perm xs l :=
    ⟨xs.map f, by simp [List.forall₂_map_right_iff, List.forall₂_same], h.symm⟩
  rw [List.forall₂_comp_perm_eq_perm_comp_forall₂] at hcomp
  obtain ⟨ys, hperm, hf⟩ := hcomp
  refine ⟨ys, hperm.symm, ?_⟩
  rw [← List.forall₂_eq_eq_eq, List.forall₂_map_left_iff]
  exact hf

/-- A selection of images, in any order, is the image of a selection. -/
theorem subperm_of_map {f : α → β} {l : List β} {xs : List α} (h : l.Subperm (xs.map f)) :
    ∃ ys : List α, ys.Subperm xs ∧ ys.map f = l := by
  obtain ⟨m, hm, hsub⟩ := h
  obtain ⟨zs, hzs, rfl⟩ := List.sublist_map_iff.mp hsub
  obtain ⟨ys, hys, rfl⟩ := perm_of_map hm.symm
  exact ⟨ys, ⟨zs, hys.symm, hzs⟩, rfl⟩

end Getty.Verified
