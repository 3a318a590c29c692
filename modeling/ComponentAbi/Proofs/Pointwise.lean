import Mathlib.Data.List.Forall2
import Mathlib.Data.Option.Basic

/-!
# Rows that are related item by item

What `List.Forall₂` says of members, positions and other rows that are made of two related rows.
-/

namespace ComponentAbi

variable {α β γ δ : Type} {R : α → β → Prop} {xs : List α} {ys : List β}

theorem exists_left_of_forall₂ (h : List.Forall₂ R xs ys) {y : β} (hy : y ∈ ys) :
    ∃ x ∈ xs, R x y := by
  induction h with
  | nil => cases hy
  | cons hfirst _ ih =>
    rcases List.mem_cons.1 hy with rfl | hy
    · exact ⟨_, List.mem_cons_self, hfirst⟩
    · obtain ⟨x, hx, hxy⟩ := ih hy
      exact ⟨x, List.mem_cons_of_mem _ hx, hxy⟩

theorem exists_right_of_forall₂ (h : List.Forall₂ R xs ys) {x : α} (hx : x ∈ xs) :
    ∃ y ∈ ys, R x y := by
  obtain ⟨y, hy, hxy⟩ := exists_left_of_forall₂ h.flip hx
  exact ⟨y, hy, hxy⟩

theorem map_eq_of_forall₂ {f : α → γ} {g : β → γ} (h : List.Forall₂ R xs ys)
    (hfg : ∀ x y, R x y → f x = g y) : xs.map f = ys.map g := by
  induction h with
  | nil => rfl
  | cons hfirst _ ih => rw [List.map_cons, List.map_cons, hfg _ _ hfirst, ih]

theorem forall₂_map_iff {S : γ → δ → Prop} {f : α → γ} {g : β → δ} :
    List.Forall₂ S (xs.map f) (ys.map g) ↔ List.Forall₂ (fun x y => S (f x) (g y)) xs ys :=
  List.forall₂_map_left_iff.trans List.forall₂_map_right_iff

theorem forall₂_getElem? (h : List.Forall₂ R xs ys) (i : Nat) : Option.Rel R xs[i]? ys[i]? := by
  induction h generalizing i with
  | nil => exact .none
  | cons hxy _ ih =>
    cases i with
    | zero => exact .some hxy
    | succ i => exact ih i

theorem forall₂_forall {ι : Type} [Inhabited ι] {S : ι → α → β → Prop}
    (h : ∀ i, List.Forall₂ (S i) xs ys) : List.Forall₂ (fun x y => ∀ i, S i x y) xs ys := by
  induction xs generalizing ys with
  | nil =>
    cases h default with
    | nil => exact .nil
  | cons x xs ih =>
    cases h default with
    | @cons _ y _ ys =>
      have hcons (i : ι) : S i x y ∧ List.Forall₂ (S i) xs ys := List.forall₂_cons.1 (h i)
      exact .cons (fun i => (hcons i).1) (ih fun i => (hcons i).2)

/-- Two rows stay related next to the same third row. -/
theorem forall₂_zip_right (h : List.Forall₂ R xs ys) (zs : List γ) :
    List.Forall₂ (fun x y => R x.1 y.1 ∧ x.2 = y.2) (xs.zip zs) (ys.zip zs) := by
  induction h generalizing zs with
  | nil => exact .nil
  | cons hxy _ ih =>
    cases zs with
    | nil => exact .nil
    | cons z zs => exact .cons ⟨hxy, rfl⟩ (ih zs)

end ComponentAbi
