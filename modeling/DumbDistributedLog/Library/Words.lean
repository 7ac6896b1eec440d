import Mathlib.Data.List.DropRight

/-! # Words of a list

The words of a list are its maximal runs of elements with a property. They are what is left
between the other elements, and the last of them may reach the end of the list.
-/

namespace Words

variable {α : Type*} {p : α → Bool} {l word front back : List α} {a : α}
  {runs : List (List α)}

/-- The maximal runs of elements with the property, in the order in which they occur. -/
inductive MaximalRuns (p : α → Bool) : List α → List (List α) → Prop
  | nil : MaximalRuns p [] []
  | skip {a : α} {l : List α} {runs : List (List α)} (ha : p a = false)
      (h : MaximalRuns p l runs) : MaximalRuns p (a :: l) runs
  | run {word rest : List α} {runs : List (List α)} (hne : word ≠ [])
      (hword : ∀ a ∈ word, p a = true) (hend : ∀ a ∈ rest.head?, p a = false)
      (h : MaximalRuns p rest runs) : MaximalRuns p (word ++ rest) (word :: runs)

/-- What stands between the elements without the property, where it is not empty. -/
def words (p : α → Bool) (l : List α) : List (List α) :=
  (l.splitOnP fun a => !p a).filter fun word => !word.isEmpty

def single (word : List α) : List (List α) := if word.isEmpty then [] else [word]

theorem words_nil : words p [] = [] := by
  simp [words]

theorem words_append_cons (ha : p a = false) :
    words p (front ++ a :: back) = words p front ++ words p back := by
  rw [words, List.splitOnP_append_cons _ _ (by simpa using ha), List.filter_append]
  rfl

theorem words_cons (ha : p a = false) : words p (a :: l) = words p l := by
  rw [← List.nil_append (a :: l), words_append_cons ha, words_nil, List.nil_append]

theorem words_of_all (h : ∀ a ∈ word, p a = true) : words p word = single word := by
  rw [words, List.splitOnP_eq_singleton fun a ha => by simp [h a ha]]
  cases word <;> rfl

theorem words_append_single (hword : ∀ a ∈ word, p a = true)
    (hend : ∀ a ∈ l.head?, p a = false) : words p (word ++ l) = single word ++ words p l := by
  cases l with
  | nil => rw [List.append_nil, words_of_all hword, words_nil, List.append_nil]
  | cons a l =>
    have ha : p a = false := hend a rfl
    rw [words_append_cons ha, words_of_all hword, words_cons ha]

theorem maximalRuns_words (l : List α) : MaximalRuns p l (words p l) := by
  induction hn : l.length using Nat.strongRecOn generalizing l with
  | ind n ih =>
    cases l with
    | nil => exact words_nil ▸ .nil
    | cons a l =>
      cases ha : p a with
      | false =>
        rw [words_cons ha]
        exact .skip ha (ih l.length (by simp [← hn]) l rfl)
      | true =>
        have hword : ∀ b ∈ a :: l.takeWhile p, p b = true := by
          intro b hb
          rcases List.mem_cons.mp hb with rfl | hb
          · exact ha
          · exact List.mem_takeWhile_imp hb
        have hend : ∀ b ∈ (l.dropWhile p).head?, p b = false := by
          intro b hb
          have := List.head?_dropWhile_not p l
          rw [Option.mem_def.mp hb] at this
          simpa using this
        have hsplit : a :: l = (a :: l.takeWhile p) ++ l.dropWhile p := by
          rw [List.cons_append, List.takeWhile_append_dropWhile]
        have hlength : (l.dropWhile p).length < n := by
          have := (List.dropWhile_suffix (l := l) p).length_le
          rw [← hn, List.length_cons]
          omega
        rw [hsplit, words_append_single hword hend]
        exact .run (List.cons_ne_nil a _) hword hend (ih _ hlength _ rfl)

/-- The words are the maximal runs. -/
theorem maximalRuns_iff : MaximalRuns p l runs ↔ runs = words p l := by
  constructor
  · intro h
    induction h with
    | nil => exact words_nil.symm
    | skip ha _ ih => rw [words_cons ha, ih]
    | run hne hword hend _ ih =>
      rw [words_append_single hword hend, ← ih, single, if_neg (by simpa using hne)]
      rfl
  · rintro rfl
    exact maximalRuns_words l

theorem MaximalRuns.eq_nil_iff (h : MaximalRuns p l runs) : runs = [] ↔ ∀ a ∈ l, p a = false := by
  induction h with
  | nil => simp
  | skip ha _ ih => simp [ih, ha]
  | @run word _ _ hne hword _ _ _ =>
    obtain ⟨a, ha⟩ := List.exists_mem_of_ne_nil word hne
    simp only [reduceCtorEq, false_iff]
    intro hall
    have hfalse := hall a (List.mem_append_left _ ha)
    rw [hword a ha] at hfalse
    cases hfalse

theorem MaximalRuns.of_mem (h : MaximalRuns p l runs) (hmem : word ∈ runs) :
    word ≠ [] ∧ ∀ a ∈ word, p a = true := by
  induction h with
  | nil => cases hmem
  | skip _ _ ih => exact ih hmem
  | run hne hword _ _ ih =>
    rcases List.mem_cons.mp hmem with rfl | hmem
    · exact ⟨hne, hword⟩
    · exact ih hmem

theorem words_eq_nil : words p l = [] ↔ ∀ a ∈ l, p a = false := (maximalRuns_words l).eq_nil_iff

theorem of_mem_words (h : word ∈ words p l) : word ≠ [] ∧ ∀ a ∈ word, p a = true :=
  (maximalRuns_words l).of_mem h

theorem words_append_of_none (h : ∀ a ∈ back, p a = false) : words p (l ++ back) = words p l := by
  induction back using List.reverseRecOn with
  | nil => rw [List.append_nil]
  | append_singleton back a ih =>
    have ha : p a = false := h a (by simp)
    rw [← List.append_assoc, words_append_cons ha, words_nil, List.append_nil]
    exact ih fun b hb => h b (by simp [hb])

theorem words_append_of_none_left (h : ∀ a ∈ front, p a = false) :
    words p (front ++ l) = words p l := by
  induction front with
  | nil => rfl
  | cons a front ih =>
    rw [List.cons_append, words_cons (h a List.mem_cons_self)]
    exact ih fun b hb => h b (List.mem_cons_of_mem a hb)

theorem words_eq_append (p : α → Bool) (l : List α) :
    words p l = words p (l.rdropWhile p) ++ single (l.rtakeWhile p) := by
  have htake : ∀ a ∈ l.rtakeWhile p, p a = true := fun a ha => List.mem_rtakeWhile_imp ha
  conv_lhs => rw [← List.rdropWhile_append_rtakeWhile (p := p) (l := l)]
  rcases List.eq_nil_or_concat (l.rdropWhile p) with hnil | ⟨front, a, hconcat⟩
  · rw [hnil, List.nil_append, words_of_all htake, words_nil, List.nil_append]
  · have ha : p a = false := by
      have hne : l.rdropWhile p ≠ [] := by simp [hconcat]
      have hlast := List.rdropWhile_last_not p l hne
      simpa [hconcat] using hlast
    rw [hconcat, List.concat_eq_append, List.append_assoc, List.singleton_append,
      words_append_cons ha, words_append_cons ha, words_of_all htake, words_nil, List.append_nil]

theorem rtakeWhile_append_cons (ha : p a = false) :
    (front ++ a :: back).rtakeWhile p = back.rtakeWhile p := by
  induction back using List.reverseRecOn with
  | nil => rw [List.rtakeWhile_nil, List.rtakeWhile_concat_neg p front a (by simp [ha])]
  | append_singleton back b ih =>
    rw [← List.cons_append, ← List.append_assoc, List.rtakeWhile_concat, List.rtakeWhile_concat, ih]

theorem rdropWhile_append_cons (ha : p a = false) :
    (front ++ a :: back).rdropWhile p = front ++ a :: back.rdropWhile p := by
  have hwhole : (front ++ a :: back).rdropWhile p ++ (front ++ a :: back).rtakeWhile p = _ :=
    List.rdropWhile_append_rtakeWhile
  rw [rtakeWhile_append_cons ha] at hwhole
  refine List.append_cancel_right (hwhole.trans ?_)
  rw [List.append_assoc, List.cons_append, List.rdropWhile_append_rtakeWhile]

end Words
