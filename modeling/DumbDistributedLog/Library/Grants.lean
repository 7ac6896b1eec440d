import DumbDistributedLog.Library.Runs
import Mathlib.Logic.Function.Basic
import Mathlib.Order.Lattice

/-! # Time-limited grants

A table of holders says which grant, if any, each key is under. A grant ends at a
time and may be renewed before that; a key is granted anew only once its grant has
ended. A holder keeps its key until the key is released or an event comes at or
after the end of its grant, and when events come in the order of their times,
nobody else is granted the key before that end. A copy of the table from which
ended grants are dropped early makes the same decisions as long as no event comes
before the end of a dropped grant.
-/

namespace Grants

open Runs

variable {κ γ ι τ : Type*} [LinearOrder τ]

/-- How grants are identified, when they end and what a renewal makes of them. -/
structure Scheme (γ ι τ : Type*) [LinearOrder τ] where
  id : γ → ι
  ends : γ → τ
  renew : γ → τ → γ
  id_renew : ∀ g now, id (renew g now) = id g
  renew_ended : ∀ g now, ends g ≤ now → renew g now = g

inductive Event (κ γ ι τ : Type*) where
  | acquire (k : κ) (g : γ) (now : τ)
  | renew (i : ι) (now : τ)
  | release (k : κ)
  | sweep (now : τ)
  | idle

def Event.time : Event κ γ ι τ → Option τ
  | .acquire _ _ now => some now
  | .renew _ now => some now
  | .sweep now => some now
  | .release _ => none
  | .idle => none

section Follow

variable [DecidableEq ι] (S : Scheme γ ι τ)

/-- A grant as the renewals of its id leave it. -/
def follow (g : γ) : Event κ γ ι τ → γ
  | .renew i now => if S.id g = i then S.renew g now else g
  | _ => g

def Ends (k : κ) (g : γ) : Event κ γ ι τ → Prop
  | .acquire k' _ now => k' = k ∧ S.ends g ≤ now
  | .release k' => k' = k
  | .sweep now => S.ends g ≤ now
  | _ => False

variable {S} {k : κ} {g : γ} {es : List (Event κ γ ι τ)} {now : τ}

theorem follow_ended (hg : S.ends g ≤ now) (hes : ∀ t ∈ es.filterMap Event.time, now ≤ t) :
    exec (follow S) g es = g := by
  induction es with
  | nil => rfl
  | cons e es ih =>
    have hf : follow S g e = g := by
      cases e with
      | renew i t =>
        have ht : now ≤ t := hes t (by simp [Event.time])
        simp only [follow]
        split
        · exact S.renew_ended g t (hg.trans ht)
        · rfl
      | _ => rfl
    rw [exec_cons, hf]
    exact ih fun t ht => hes t ((List.sublist_cons_self e es).filterMap _ |>.subset ht)

theorem along_not_ends (hr : ∀ e ∈ es, e ≠ .release k)
    (hs : (es.filterMap Event.time).Pairwise (· ≤ ·))
    (hle : ∀ t ∈ es.filterMap Event.time, t ≤ now)
    (hnow : now < S.ends (exec (follow S) g es)) :
    Along (follow S) (fun g e => ¬ Ends S k g e) g es := by
  induction es generalizing g with
  | nil => trivial
  | cons e es ih =>
    have hsub := (List.sublist_cons_self e es).filterMap Event.time
    have hlater : ∀ t ∈ e.time, ∀ t' ∈ es.filterMap Event.time, t ≤ t' := by
      intro t ht
      rw [List.filterMap_cons, show e.time = some t from ht] at hs
      exact (List.pairwise_cons.mp hs).1
    have hends : ∀ t ∈ e.time, follow S g e = g → ¬ S.ends g ≤ t := by
      intro t ht hf hg
      rw [exec_cons, hf, follow_ended hg (hlater t ht)] at hnow
      have htn : t ≤ now := hle t (List.mem_filterMap.mpr ⟨e, List.mem_cons_self, ht⟩)
      exact not_le.mpr hnow (hg.trans htn)
    refine ⟨?_, ih (fun e' he' => hr e' (List.mem_cons_of_mem _ he')) (hs.sublist hsub)
      (fun t ht => hle t (hsub.subset ht)) hnow⟩
    cases e with
    | acquire k' g' t => exact fun hc => hends t rfl rfl hc.2
    | renew i t => exact id
    | release k' => exact fun hc => hr _ List.mem_cons_self (by rw [show k' = k from hc])
    | sweep t => exact hends t rfl rfl
    | idle => exact id

end Follow

section Holders

variable [DecidableEq κ] [DecidableEq ι] (S : Scheme γ ι τ)

def step (h : κ → Option γ) : Event κ γ ι τ → κ → Option γ
  | .acquire k g now => if ∃ g' ∈ h k, now < S.ends g' then h else Function.update h k (some g)
  | .renew i now => fun k => (h k).map fun g => if S.id g = i then S.renew g now else g
  | .release k => Function.update h k none
  | .sweep now => fun k => (h k).filter fun g => now < S.ends g
  | .idle => h

variable {S} {h : κ → Option γ} {k : κ} {g : γ} {e : Event κ γ ι τ}
  {es : List (Event κ γ ι τ)} {now : τ}

theorem step_kept (hk : h k = some g) (he : ¬ Ends S k g e) :
    step S h e k = some (follow S g e) := by
  cases e with
  | acquire k' g' now =>
    simp only [step, follow]
    split
    · exact hk
    · rename_i hn
      have hne : k ≠ k' := by
        rintro rfl
        exact he ⟨rfl, not_lt.mp fun hl => hn ⟨g, hk, hl⟩⟩
      rw [Function.update_of_ne hne, hk]
  | renew i now => simp [step, follow, hk]
  | release k' =>
    have hne : k ≠ k' := fun hk' => he hk'.symm
    simp only [step, follow]
    rw [Function.update_of_ne hne, hk]
  | sweep now =>
    have hl : now < S.ends g := not_le.mp he
    simp [step, follow, hk, hl]
  | idle => exact hk

theorem exec_kept (hk : h k = some g) (hes : Along (follow S) (fun g e => ¬ Ends S k g e) g es) :
    exec (step S) h es k = some (exec (follow S) g es) := by
  induction es generalizing h g with
  | nil => exact hk
  | cons e es ih => exact ih (step_kept hk hes.1) hes.2

/-- Until its grant ends, nobody else is granted the key of a holder. -/
theorem exclusion (hk : h k = some g) (hr : ∀ e ∈ es, e ≠ .release k)
    (hs : (es.filterMap Event.time).Pairwise (· ≤ ·))
    (hle : ∀ t ∈ es.filterMap Event.time, t ≤ now)
    (hnow : now < S.ends (exec (follow S) g es)) :
    exec (step S) h es k = some (exec (follow S) g es) :=
  exec_kept hk (along_not_ends hr hs hle hnow)

end Holders

section Lagging

variable (S : Scheme γ ι τ)

/-- The second table lacks only grants that ended by one of the given times. -/
def Lags (clocks : List τ) (h h' : κ → Option γ) : Prop :=
  ∀ k, h' k = h k ∨ h' k = none ∧ ∃ g, h k = some g ∧ ∃ c ∈ clocks, S.ends g ≤ c

/-- An event that comes after the end of every grant it concerns and that only the
first table has. -/
def Timely (h h' : κ → Option γ) : Event κ γ ι τ → Prop
  | .acquire k _ now => ∀ g, h k = some g → h' k = none → S.ends g ≤ now
  | .renew i now => ∀ k g, h k = some g → h' k = none → S.id g = i → S.ends g ≤ now
  | _ => True

variable {S} {clocks : List τ} {h h' : κ → Option γ} {k : κ} {g : γ} {e : Event κ γ ι τ} {now : τ}

theorem Lags.mono {clocks' : List τ} (hl : Lags S clocks h h') (hsub : clocks ⊆ clocks') :
    Lags S clocks' h h' := by
  intro k
  rcases hl k with hk | ⟨hk, g, hg, c, hc, hle⟩
  · exact Or.inl hk
  · exact Or.inr ⟨hk, g, hg, c, hsub hc, hle⟩

theorem Lags.filter_eq (hl : Lags S clocks h h') (k : κ) :
    (h' k).filter (fun g => clocks.all (· < S.ends g)) =
      (h k).filter fun g => clocks.all (· < S.ends g) := by
  rcases hl k with hk | ⟨hk, g, hg, c, hc, hle⟩
  · rw [hk]
  · have hno : ¬ clocks.all (· < S.ends g) := fun hall =>
      not_le.mpr (of_decide_eq_true (List.all_eq_true.mp hall c hc)) hle
    simp only [hk, hg, Option.filter, hno]
    rfl

theorem Lags.held_iff (hl : Lags S clocks h h') (ht : Timely S h h' (.acquire k g now)) :
    (∃ g' ∈ h' k, now < S.ends g') ↔ ∃ g' ∈ h k, now < S.ends g' := by
  rcases hl k with hk | ⟨hk, g', hg, _⟩
  · rw [hk]
  · have hle : S.ends g' ≤ now := ht g' hg hk
    simp [hk, hg, hle]

variable [DecidableEq κ] [DecidableEq ι]

theorem Lags.step (hl : Lags S clocks h h') (ht : Timely S h h' e) :
    Lags S clocks (step S h e) (step S h' e) := by
  cases e with
  | acquire k g now =>
    simp only [Grants.step, hl.held_iff ht]
    split
    · exact hl
    · intro k'
      by_cases hk : k' = k
      · subst k'; simp
      · simpa [Function.update_of_ne hk] using hl k'
  | renew i now =>
    intro k
    rcases hl k with hk | ⟨hk, g, hg, c, hc, hle⟩
    · exact Or.inl (by simp only [Grants.step, hk])
    · refine Or.inr ⟨by simp [Grants.step, hk], g, ?_, c, hc, hle⟩
      simp only [Grants.step, hg, Option.map_some, Option.some.injEq]
      split
      · rename_i hi
        exact S.renew_ended g now (ht k g hg hk hi)
      · rfl
  | release k =>
    intro k'
    by_cases hk : k' = k
    · subst k'; simp [Grants.step]
    · simpa [Grants.step, Function.update_of_ne hk] using hl k'
  | sweep now =>
    intro k
    rcases hl k with hk | ⟨hk, g, hg, c, hc, hle⟩
    · exact Or.inl (by simp only [Grants.step, hk])
    · rcases lt_or_ge now (S.ends g) with hlt | hge
      · exact Or.inr ⟨by simp [Grants.step, hk], g, by simp [Grants.step, hg, hlt], c, hc, hle⟩
      · exact Or.inl (by simp [Grants.step, hk, hg, Option.filter, hge])
  | idle => exact hl

theorem Lags.sweep (hl : Lags S clocks h h') :
    Lags S (now :: clocks) h (Grants.step S h' (.sweep now)) := by
  intro k
  rcases hl k with hk | ⟨hk, g, hg, c, hc, hle⟩
  · cases hg : h k with
    | none => exact Or.inl (by simp [Grants.step, hk, hg])
    | some g =>
      rcases lt_or_ge now (S.ends g) with hlt | hge
      · exact Or.inl (by simp [Grants.step, hk, hg, hlt])
      · exact Or.inr ⟨by simp [Grants.step, hk, hg, hge], g, rfl, now, List.mem_cons_self, hge⟩
  · exact Or.inr ⟨by simp [Grants.step, hk], g, hg, c, List.mem_cons_of_mem _ hc, hle⟩

end Lagging

end Grants
