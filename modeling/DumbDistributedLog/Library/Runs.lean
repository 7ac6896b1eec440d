import Mathlib.Data.List.Infix
import Mathlib.Tactic.Common

/-! # Runs of a step function

A run feeds a list of inputs to a step function. `Along` asks a condition of
every input in the state it meets, `Always` asks a property of every state the
run passes through. The rules carry invariants along a run and characterise the
runs that keep an invariant throughout.
-/

namespace Runs

variable {σ α : Type*} {step : σ → α → σ} {P Q : σ → α → Prop} {I : σ → Prop}
  {s : σ} {a : α} {as bs : List α}

/-- The state after a list of inputs. -/
def exec (step : σ → α → σ) (s : σ) (as : List α) : σ := as.foldl step s

/-- Every input meets the condition in the state before it. -/
def Along (step : σ → α → σ) (P : σ → α → Prop) : σ → List α → Prop
  | _, [] => True
  | s, a :: as => P s a ∧ Along step P (step s a) as

/-- Every state the run passes through, its two ends included, has the property. -/
def Always (step : σ → α → σ) (I : σ → Prop) (s : σ) (as : List α) : Prop :=
  ∀ pre, pre <+: as → I (exec step s pre)

instance Along.decidable (step : σ → α → σ) (P : σ → α → Prop) [∀ s a, Decidable (P s a)] :
    ∀ s as, Decidable (Along step P s as)
  | _, [] => .isTrue trivial
  | s, a :: as =>
    have := Along.decidable step P (step s a) as
    inferInstanceAs (Decidable (P s a ∧ Along step P (step s a) as))

@[simp] theorem exec_nil : exec step s [] = s := rfl

@[simp] theorem exec_cons : exec step s (a :: as) = exec step (step s a) as := rfl

@[simp] theorem exec_append : exec step s (as ++ bs) = exec step (exec step s as) bs :=
  List.foldl_append

@[simp] theorem along_nil : Along step P s [] := trivial

@[simp] theorem along_cons :
    Along step P s (a :: as) ↔ P s a ∧ Along step P (step s a) as := Iff.rfl

theorem along_append :
    Along step P s (as ++ bs) ↔ Along step P s as ∧ Along step P (exec step s as) bs := by
  induction as generalizing s with
  | nil => simp
  | cons a as ih => simp [ih, and_assoc]

theorem along_iff_forall_split : Along step P s as ↔
    ∀ pre a post, as = pre ++ a :: post → P (exec step s pre) a := by
  constructor
  · rintro h pre a post rfl
    exact (along_append.mp h).2.1
  · intro h
    induction as generalizing s with
    | nil => trivial
    | cons a as ih =>
      refine ⟨h [] a as rfl, ih fun pre b post hsplit => ?_⟩
      exact h (a :: pre) b post (by rw [hsplit]; rfl)

theorem along_of_forall (h : ∀ a ∈ as, ∀ s, P s a) : Along step P s as := by
  induction as generalizing s with
  | nil => trivial
  | cons a as ih =>
    exact ⟨h a List.mem_cons_self s, ih fun b hb => h b (List.mem_cons_of_mem a hb)⟩

theorem Along.and (hP : Along step P s as) (hQ : Along step Q s as) :
    Along step (fun s a => P s a ∧ Q s a) s as := by
  induction as generalizing s with
  | nil => trivial
  | cons a as ih => exact ⟨⟨hP.1, hQ.1⟩, ih hP.2 hQ.2⟩

/-- An invariant that every admissible input preserves holds after the run. -/
theorem Along.exec_inv (hstep : ∀ s a, I s → P s a → I (step s a)) (hs : I s)
    (h : Along step P s as) : I (exec step s as) := by
  induction as generalizing s with
  | nil => exact hs
  | cons a as ih => exact ih (hstep s a hs h.1) h.2

/-- A condition that follows from an invariant holds of every input. -/
theorem Along.strengthen (hstep : ∀ s a, I s → P s a → I (step s a) ∧ Q s a) (hs : I s)
    (h : Along step P s as) : Along step Q s as := by
  induction as generalizing s with
  | nil => trivial
  | cons a as ih =>
    obtain ⟨hi, hq⟩ := hstep s a hs h.1
    exact ⟨hq, ih hi h.2⟩

/-- What holds along a run holds along a run that simulates it. -/
theorem Along.simulate {R : σ → σ → Prop} {s' : σ}
    (hstep : ∀ s s' a, R s s' → P s a → P s' a ∧ R (step s a) (step s' a)) (hs : R s s')
    (h : Along step P s as) : Along step P s' as := by
  induction as generalizing s s' with
  | nil => trivial
  | cons a as ih =>
    obtain ⟨hp, hr⟩ := hstep s s' a hs h.1
    exact ⟨hp, ih hr h.2⟩

theorem Along.exec_view {τ : Type*} {step' : τ → α → τ} {view : σ → τ}
    (hstep : ∀ s a, I s → P s a → I (step s a) ∧ view (step s a) = step' (view s) a) (hs : I s)
    (h : Along step P s as) : view (exec step s as) = exec step' (view s) as := by
  induction as generalizing s with
  | nil => rfl
  | cons a as ih =>
    obtain ⟨hi, hview⟩ := hstep s a hs h.1
    rw [exec_cons, exec_cons, ih hi h.2, hview]

theorem along_inv (hstep : ∀ s a, I s → I (step s a)) (hs : I s) :
    Along step (fun s _ => I s) s as := by
  induction as generalizing s with
  | nil => trivial
  | cons a as ih => exact ⟨hs, ih (hstep s a hs)⟩

theorem exec_inv (hstep : ∀ s a, I s → I (step s a)) (hs : I s) : I (exec step s as) :=
  (along_inv hstep hs).exec_inv (fun s a h _ => hstep s a h) hs

theorem exec_eq_self (h : ∀ a ∈ as, step s a = s) : exec step s as = s := by
  induction as with
  | nil => rfl
  | cons a as ih =>
    rw [exec_cons, h a List.mem_cons_self]
    exact ih fun b hb => h b (List.mem_cons_of_mem a hb)

/-- Inputs that change nothing can be left out of a run. -/
theorem exec_filter {p : α → Bool} (h : ∀ s a, p a = false → step s a = s) :
    exec step s (as.filter p) = exec step s as := by
  induction as generalizing s with
  | nil => rfl
  | cons a as ih =>
    rw [exec_cons]
    cases hp : p a with
    | true => rw [List.filter_cons_of_pos hp, exec_cons, ih]
    | false => rw [List.filter_cons_of_neg (by simp [hp]), ih, h s a hp]

theorem exec_last {β : Type*} {f : σ → Option β} {g : α → Option β}
    (h : ∀ s a, f (step s a) = (g a).or (f s)) :
    f (exec step s as) = (as.filterMap g).getLast?.or (f s) := by
  induction as generalizing s with
  | nil => rfl
  | cons a as ih =>
    rw [exec_cons, ih, h, List.filterMap_cons]
    cases g a with
    | none => rfl
    | some b => cases hlast : (as.filterMap g).getLast? <;> simp [List.getLast?_cons, hlast]

/-- What some inputs bring about and others end holds after a run exactly if it has not been ended
since the last input that brought it about, or since the beginning. -/
theorem holds_exec_iff {sets ends : σ → α → Prop}
    (hstep : ∀ s a, I (step s a) ↔ sets s a ∨ I s ∧ ¬ ends s a) :
    I (exec step s as) ↔ (I s ∧ Along step (fun s a => ¬ ends s a) s as) ∨
      ∃ pre a post, as = pre ++ a :: post ∧ sets (exec step s pre) a ∧
        Along step (fun s a => ¬ ends s a) (exec step s (pre ++ [a])) post := by
  induction as generalizing s with
  | nil => simp
  | cons b as ih =>
    rw [exec_cons, ih, hstep]
    constructor
    · rintro (⟨hsets | ⟨hs, hends⟩, hrest⟩ | ⟨pre, a, post, rfl, hsets, hrest⟩)
      · exact .inr ⟨[], b, as, rfl, hsets, hrest⟩
      · exact .inl ⟨hs, hends, hrest⟩
      · exact .inr ⟨b :: pre, a, post, rfl, hsets, hrest⟩
    · rintro (⟨hs, hends, hrest⟩ | ⟨pre, a, post, hsplit, hsets, hrest⟩)
      · exact .inl ⟨.inr ⟨hs, hends⟩, hrest⟩
      · cases pre with
        | nil =>
          cases hsplit
          exact .inl ⟨.inl hsets, hrest⟩
        | cons c pre =>
          cases hsplit
          exact .inr ⟨pre, a, post, rfl, hsets, hrest⟩

/-- An input whose outcome does not depend on the state before it hides where the run began. -/
theorem exec_eq_of_reset (ha : a ∈ as) (hreset : ∀ s s', step s a = step s' a) (s s' : σ) :
    exec step s as = exec step s' as := by
  induction as generalizing s s' with
  | nil => cases ha
  | cons b as ih =>
    rcases List.mem_cons.mp ha with rfl | ha
    · rw [exec_cons, exec_cons, hreset s s']
    · exact ih ha _ _

/-- What differs at the two ends of a run has been changed by one of its inputs. -/
theorem exists_change {β : Type*} {f : σ → β} (h : f (exec step s as) ≠ f s) :
    ∃ pre a post, as = pre ++ a :: post ∧
      f (step (exec step s pre) a) ≠ f (exec step s pre) := by
  induction as generalizing s with
  | nil => exact absurd rfl h
  | cons a as ih =>
    by_cases hstep : f (step s a) = f s
    · rw [← hstep] at h
      obtain ⟨pre, b, post, rfl, hchange⟩ := ih h
      exact ⟨a :: pre, b, post, rfl, hchange⟩
    · exact ⟨[], a, as, rfl, hstep⟩

/-- Conditions that agree under an invariant hold along the same runs. The invariant need
only survive the inputs that meet them. -/
theorem along_congr_of_inv {R : σ → α → Prop} (hstep : ∀ s a, I s → R s a → Q s a → I (step s a))
    (h : ∀ s a, I s → R s a → (P s a ↔ Q s a)) (hs : I s) (hR : Along step R s as) :
    Along step P s as ↔ Along step Q s as := by
  induction as generalizing s with
  | nil => exact Iff.rfl
  | cons a as ih =>
    rw [along_cons, along_cons, h s a hs hR.1]
    exact and_congr_right fun hq => ih (hstep s a hs hR.1 hq) hR.2

theorem along_congr (hstep : ∀ s a, I s → I (step s a)) (h : ∀ s a, I s → (P s a ↔ Q s a))
    (hs : I s) : Along step P s as ↔ Along step Q s as :=
  along_congr_of_inv (R := fun _ _ => True) (fun s a hs _ _ => hstep s a hs)
    (fun s a hs _ => h s a hs) hs (along_of_forall fun _ _ _ => trivial)

theorem along_comap {τ : Type*} {step' : τ → α → τ} {f : σ → τ} {R : τ → α → Prop}
    (hf : ∀ s a, f (step s a) = step' (f s) a) :
    Along step (fun s a => R (f s) a) s as ↔ Along step' R (f s) as := by
  induction as generalizing s with
  | nil => exact Iff.rfl
  | cons a as ih => rw [along_cons, along_cons, ih, hf]

theorem always_nil : Always step I s [] ↔ I s := by
  simp [Always]

theorem always_cons :
    Always step I s (a :: as) ↔ I s ∧ Always step I (step s a) as := by
  constructor
  · intro h
    refine ⟨h [] List.nil_prefix, fun pre hp => ?_⟩
    exact h (a :: pre) (List.cons_prefix_cons.mpr ⟨rfl, hp⟩)
  · rintro ⟨hs, h⟩ pre hp
    cases pre with
    | nil => exact hs
    | cons b pre =>
      obtain ⟨rfl, hp'⟩ := List.cons_prefix_cons.mp hp
      exact h pre hp'

/-- When an input keeps the invariant exactly if it meets the condition, the runs that keep
the invariant throughout are those whose inputs all meet it. A second invariant may be
used that the inputs that meet the condition preserve. -/
theorem always_iff_along_of_inv {J : σ → Prop}
    (hinv : ∀ s a, J s → I s → P s a → Q s a → J (step s a))
    (hstep : ∀ s a, J s → I s → P s a → (I (step s a) ↔ Q s a)) (hj : J s) (hs : I s)
    (h : Along step P s as) : Always step I s as ↔ Along step Q s as := by
  induction as generalizing s with
  | nil => simp [always_nil, hs]
  | cons a as ih =>
    rw [always_cons, along_cons]
    constructor
    · rintro ⟨_, ha⟩
      have hi : I (step s a) := ha [] List.nil_prefix
      have hq := (hstep s a hj hs h.1).mp hi
      exact ⟨hq, (ih (hinv s a hj hs h.1 hq) hi h.2).mp ha⟩
    · rintro ⟨hq, ha⟩
      have hi : I (step s a) := (hstep s a hj hs h.1).mpr hq
      exact ⟨hs, (ih (hinv s a hj hs h.1 hq) hi h.2).mpr ha⟩

theorem always_iff_along (hstep : ∀ s a, I s → P s a → (I (step s a) ↔ Q s a)) (hs : I s)
    (h : Along step P s as) : Always step I s as ↔ Along step Q s as :=
  always_iff_along_of_inv (J := fun _ => True) (fun _ _ _ _ _ _ => trivial)
    (fun s a _ => hstep s a) trivial hs h

/-- Some input meets the condition in the state before it. -/
def Eventually (step : σ → α → σ) (P : σ → α → Prop) : σ → List α → Prop
  | _, [] => False
  | s, a :: as => P s a ∨ Eventually step P (step s a) as

/-- Every input that meets the first condition is followed by one that meets the second. -/
def Answered (step : σ → α → σ) (P Q : σ → α → Prop) : σ → List α → Prop
  | _, [] => True
  | s, a :: as => (P s a → Eventually step Q (step s a) as) ∧ Answered step P Q (step s a) as

instance Eventually.decidable (step : σ → α → σ) (P : σ → α → Prop) [∀ s a, Decidable (P s a)] :
    ∀ s as, Decidable (Eventually step P s as)
  | _, [] => .isFalse id
  | s, a :: as =>
    have := Eventually.decidable step P (step s a) as
    inferInstanceAs (Decidable (P s a ∨ Eventually step P (step s a) as))

instance Answered.decidable (step : σ → α → σ) (P Q : σ → α → Prop) [∀ s a, Decidable (P s a)]
    [∀ s a, Decidable (Q s a)] : ∀ s as, Decidable (Answered step P Q s as)
  | _, [] => .isTrue trivial
  | s, a :: as =>
    have := Answered.decidable step P Q (step s a) as
    inferInstanceAs (Decidable
      ((P s a → Eventually step Q (step s a) as) ∧ Answered step P Q (step s a) as))

/-- What some inputs bring about and others end is over after a run exactly if it has been ended
after every input that brought it about, and if it was there at the beginning. -/
theorem not_exec_iff_answered {sets ends : σ → α → Prop}
    (hstep : ∀ s a, I (step s a) ↔ sets s a ∨ I s ∧ ¬ ends s a) :
    ¬ I (exec step s as) ↔
      (I s → Eventually step ends s as) ∧ Answered step sets ends s as := by
  induction as generalizing s with
  | nil => simp [Eventually, Answered]
  | cons a as ih =>
    rw [exec_cons, ih, hstep, Eventually, Answered]
    tauto

/-- A property that only some inputs break and others restore holds at the end of a run
in which every break is followed by a restoration. -/
theorem Answered.exec_inv (hkeep : ∀ s a, I s → ¬ P s a → I (step s a))
    (hrestore : ∀ s a, Q s a → I (step s a)) (hs : I s ∨ Eventually step Q s as)
    (h : Answered step P Q s as) : I (exec step s as) := by
  induction as generalizing s with
  | nil =>
    rcases hs with hs | hs
    · exact hs
    · exact hs.elim
  | cons a as ih =>
    refine ih ?_ h.2
    rcases hs with hs | hq | hlater
    · by_cases hp : P s a
      · exact .inr (h.1 hp)
      · exact .inl (hkeep s a hs hp)
    · exact .inl (hrestore s a hq)
    · exact .inr hlater

end Runs
