import Mathlib.Tactic.Common

/-! # Tokens in places

A token is in one place at a time. It is put into a place when it is made, and moves from there to
other places.
-/

namespace Tokens

variable {π τ : Type*} [DecidableEq π] {held : π → Option τ} {p q x : π} {t : τ}

def OnePlace (held : π → Option τ) : Prop :=
  ∀ t p q, held p = some t → held q = some t → p = q

/-- The token of one place is in another, and no other token has moved. -/
def move (held : π → Option τ) (p q x : π) : Option τ :=
  if x = q then held p else if x = p then none else held x

def put (held : π → Option τ) (p : π) (t : τ) (x : π) : Option τ :=
  if x = p then some t else held x

theorem move_eq_some (h : move held p q x = some t) :
    (x = q ∧ held p = some t) ∨ (x ≠ p ∧ held x = some t) := by
  unfold move at h
  split_ifs at h with hq hp
  · exact .inl ⟨hq, h⟩
  · exact .inr ⟨hp, h⟩

theorem put_eq_some {t' : τ} (h : put held p t x = some t') :
    (x = p ∧ t = t') ∨ held x = some t' := by
  unfold put at h
  split_ifs at h with hp
  · exact .inl ⟨hp, Option.some.inj h⟩
  · exact .inr h

theorem OnePlace.move (h : OnePlace held) : OnePlace (move held p q) := by
  intro t x y hx hy
  rcases move_eq_some hx with ⟨rfl, hp⟩ | ⟨hxp, hx'⟩
  · rcases move_eq_some hy with ⟨rfl, -⟩ | ⟨hyp, hy'⟩
    · rfl
    · exact absurd (h t y p hy' hp) hyp
  · rcases move_eq_some hy with ⟨rfl, hp⟩ | ⟨-, hy'⟩
    · exact absurd (h t x p hx' hp) hxp
    · exact h t x y hx' hy'

theorem OnePlace.put (h : OnePlace held) (hnew : ∀ x, held x ≠ some t) :
    OnePlace (put held p t) := by
  intro t' x y hx hy
  rcases put_eq_some hx with ⟨rfl, rfl⟩ | hx'
  · rcases put_eq_some hy with ⟨rfl, -⟩ | hy'
    · rfl
    · exact absurd hy' (hnew y)
  · rcases put_eq_some hy with ⟨rfl, rfl⟩ | hy'
    · exact absurd hx' (hnew x)
    · exact h t' x y hx' hy'

end Tokens
