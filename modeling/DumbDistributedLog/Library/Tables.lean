import Mathlib.Data.List.Perm.Subperm
import Mathlib.Tactic.Common

/-! # Finite tables

Maps with finitely many keys, equal exactly when every lookup agrees. The
lemmas compute lookups after an update in terms of equality of keys, and relate
the enumeration of a table to its lookups. An iteration comes to every entry once, in any order.
-/

open Std

/-- A finite map, with its entries enumerated in the order of the keys. -/
abbrev Table (κ ν : Type*) [Ord κ] := ExtTreeMap κ ν

namespace Table

section Lookup

variable {κ ν : Type*} [Ord κ] [TransOrd κ] [LawfulEqOrd κ] [DecidableEq κ] (t : Table κ ν)

theorem get_insert (k a : κ) (v : ν) :
    (t.insert k v)[a]? = if k = a then some v else t[a]? := by
  simp [ExtTreeMap.getElem?_insert]

theorem get_erase (k a : κ) : (t.erase k)[a]? = if k = a then none else t[a]? := by
  simp [ExtTreeMap.getElem?_erase]

theorem get_erase_eq_some {k a : κ} {v : ν} :
    (t.erase k)[a]? = some v ↔ k ≠ a ∧ t[a]? = some v := by
  rw [get_erase]
  split <;> simp_all

theorem get_of_foldl_erase {ks : List κ} {a : κ} {v : ν}
    (h : (ks.foldl (·.erase ·) t)[a]? = some v) : t[a]? = some v := by
  induction ks generalizing t with
  | nil => exact h
  | cons k ks ih => exact ((get_erase_eq_some t).mp (ih (t.erase k) h)).2

theorem get_modify (k a : κ) (f : ν → ν) :
    (t.modify k f)[a]? = if k = a then t[k]?.map f else t[a]? := by
  simp [ExtTreeMap.getElem?_modify]

theorem get_alter (k a : κ) (f : Option ν → Option ν) :
    (t.alter k f)[a]? = if k = a then f t[k]? else t[a]? := by
  simp [ExtTreeMap.getElem?_alter]

theorem get_foldl_insert (f : κ → Option ν) (ks : List κ) (a : κ) :
    (ks.foldl (fun t k => (f k).elim t (t.insert k)) t)[a]? =
      if a ∈ ks then (f a).or t[a]? else t[a]? := by
  induction ks generalizing t with
  | nil => simp
  | cons k ks ih =>
    have hhead : ((f k).elim t (t.insert k))[a]? =
        if k = a then (f a).or t[a]? else t[a]? := by
      by_cases hka : k = a
      · subst hka
        cases f k <;> simp
      · cases f k <;> simp [get_insert, hka]
    rw [List.foldl_cons, ih, hhead]
    by_cases hka : k = a
    · subst hka
      cases f k <;> simp
    · have hak : a ≠ k := Ne.symm hka
      simp [hka, hak]

end Lookup

section Enumeration

variable {κ ν : Type*} [Ord κ] [TransOrd κ] (t : Table κ ν)

theorem mem_iff_get {k : κ} : k ∈ t ↔ ∃ v, t[k]? = some v := by
  rw [ExtTreeMap.mem_iff_isSome_getElem?, Option.isSome_iff_exists]

theorem toList_filter (f : κ → ν → Bool) :
    (t.filter f).toList = t.toList.filter fun p => f p.1 p.2 := by
  obtain ⟨t⟩ := t
  induction t using ExtDTreeMap.inductionOn with
  | mk t => exact DTreeMap.Const.toList_filter

theorem values_eq : t.values = t.toList.map Prod.snd := by
  obtain ⟨t⟩ := t
  induction t using ExtDTreeMap.inductionOn with
  | mk t =>
    change t.1.values = (DTreeMap.Internal.Impl.Const.toList t.1).map Prod.snd
    rw [DTreeMap.Internal.Impl.values_eq_map_snd,
      DTreeMap.Internal.Impl.Const.toList_eq_toListModel_map]
    simp

theorem size_filter (f : κ → ν → Bool) :
    (t.filter f).size = (t.toList.filter fun p => f p.1 p.2).length := by
  rw [← ExtTreeMap.length_toList, toList_filter]

variable [LawfulEqOrd κ]

theorem mem_values {v : ν} : v ∈ t.values ↔ ∃ k : κ, t[k]? = some v := by
  simp [values_eq, ExtTreeMap.mem_toList_iff_getElem?_eq_some]

theorem get_filter (f : κ → ν → Bool) (k : κ) : (t.filter f)[k]? = t[k]?.filter (f k) := by
  ext v
  simp only [← ExtTreeMap.mem_toList_iff_getElem?_eq_some, toList_filter, List.mem_filter,
    Option.filter_eq_some_iff]

theorem filter_erase [DecidableEq κ] (f : κ → ν → Bool) (k : κ) :
    (t.erase k).filter f = (t.filter f).erase k := by
  refine ExtTreeMap.ext_getElem? fun a => ?_
  simp only [get_filter, get_erase]
  split_ifs <;> simp

theorem filter_insert [DecidableEq κ] (f : κ → ν → Bool) (k : κ) (v : ν) :
    (t.insert k v).filter f = if f k v then (t.filter f).insert k v else (t.filter f).erase k := by
  refine ExtTreeMap.ext_getElem? fun a => ?_
  by_cases hka : k = a
  · subst hka
    cases hf : f k v <;> simp [hf]
  · cases hf : f k v <;> simp [get_insert, get_erase, hka]

theorem mem_filter {f : κ → ν → Bool} {k : κ} : k ∈ t.filter f ↔ t[k]?.any (f k) = true := by
  rw [ExtTreeMap.mem_iff_isSome_getElem?, get_filter]
  cases t[k]? <;> simp

theorem size_filter_erase [DecidableEq κ] (f : κ → ν → Bool) (k : κ) :
    ((t.erase k).filter f).size + (t[k]?.any (f k)).toNat = (t.filter f).size := by
  rw [filter_erase, ExtTreeMap.size_erase]
  by_cases hmem : k ∈ t.filter f
  · have hpos : 0 < (t.filter f).size := by
      rw [← ExtTreeMap.length_keys]
      exact List.length_pos_of_mem (ExtTreeMap.mem_keys.mpr hmem)
    simp only [ExtTreeMap.contains_iff_mem, if_pos hmem, (mem_filter t).mp hmem, Bool.toNat_true]
    omega
  · simp [if_neg hmem, Bool.eq_false_iff.mpr (mt (mem_filter t).mpr hmem)]

theorem size_filter_insert [DecidableEq κ] (f : κ → ν → Bool) (k : κ) (v : ν) :
    ((t.insert k v).filter f).size + (t[k]?.any (f k)).toNat =
      (t.filter f).size + (f k v).toNat := by
  rw [filter_insert]
  cases hf : f k v with
  | false =>
    rw [if_neg Bool.false_ne_true, ← filter_erase, size_filter_erase]
    rfl
  | true =>
    rw [if_pos rfl, ExtTreeMap.size_insert]
    by_cases hmem : k ∈ t.filter f
    · simp only [ExtTreeMap.contains_iff_mem, if_pos hmem, (mem_filter t).mp hmem]
    · simp [if_neg hmem, Bool.eq_false_iff.mpr (mt (mem_filter t).mpr hmem)]

theorem mem_keys_iff {k : κ} : k ∈ t.keys ↔ ∃ v, t[k]? = some v := by
  rw [ExtTreeMap.mem_keys, mem_iff_get]

theorem nodup_keys : t.keys.Nodup :=
  t.distinct_keys.imp fun hne heq => hne (compare_eq_iff_eq.mpr heq)

theorem nodup_toList : t.toList.Nodup :=
  ExtTreeMap.distinct_keys_toList.imp fun {p q} hne (heq : p = q) =>
    hne (heq ▸ ReflCmp.compare_self)

theorem nodup_map_values {β : Type*} {f : ν → β}
    (h : ∀ (k k' : κ) (v v' : ν), t[k]? = some v → t[k']? = some v' → f v = f v' → k = k') :
    (t.values.map f).Nodup := by
  rw [values_eq, List.map_map]
  refine List.pairwise_map.mpr (List.Pairwise.imp_of_mem ?_ t.nodup_toList)
  rintro ⟨k, v⟩ ⟨k', v'⟩ hv hv' hne heq
  rw [ExtTreeMap.mem_toList_iff_getElem?_eq_some] at hv hv'
  obtain rfl := h k k' v v' hv hv' heq
  exact hne (by rw [Option.some.inj (hv.symm.trans hv')])

theorem length_eq_size_iff {ks : List κ} (hnodup : ks.Nodup) (hsub : ∀ k ∈ ks, k ∈ t.keys) :
    ks.length = t.size ↔ ∀ k ∈ t.keys, k ∈ ks := by
  rw [← ExtTreeMap.length_keys]
  constructor
  · intro hlen
    have hperm := (List.subperm_of_subset hnodup hsub).perm_of_length_le (Nat.le_of_eq hlen.symm)
    exact fun k hk => hperm.mem_iff.mpr hk
  · intro hall
    exact ((List.perm_ext_iff_of_nodup hnodup t.nodup_keys).mpr
      fun k => ⟨hsub k, hall k⟩).length_eq

theorem nodup_iff_length_eq_size {ks : List κ} (hmem : ∀ k, k ∈ ks ↔ k ∈ t.keys) :
    ks.Nodup ↔ ks.length = t.size := by
  rw [← ExtTreeMap.length_keys]
  constructor
  · intro hnodup
    exact ((List.perm_ext_iff_of_nodup hnodup t.nodup_keys).mpr hmem).length_eq
  · intro hlen
    have hsub : t.keys ⊆ ks := fun k hk => (hmem k).mpr hk
    have hperm := (List.subperm_of_subset t.nodup_keys hsub).perm_of_length_le (Nat.le_of_eq hlen)
    exact hperm.nodup_iff.mp t.nodup_keys

theorem get_ofList_eq_some {entries : List (κ × ν)} (h : (entries.map Prod.fst).Nodup) {k : κ}
    {v : ν} : (ExtTreeMap.ofList entries : Table κ ν)[k]? = some v ↔ (k, v) ∈ entries := by
  classical
  have hdistinct : entries.Pairwise fun p q => ¬ compare p.1 q.1 = .eq :=
    (List.pairwise_map.mp h).imp fun hne heq => hne (Std.compare_eq_iff_eq.mp heq)
  have hmem : ∀ {v' : ν}, (k, v') ∈ entries →
      (ExtTreeMap.ofList entries : Table κ ν)[k]? = some v' :=
    ExtTreeMap.getElem?_ofList_of_mem ReflCmp.compare_self hdistinct
  refine ⟨fun hget => ?_, hmem⟩
  by_cases hk : k ∈ entries.map Prod.fst
  · obtain ⟨⟨k, v'⟩, hp, rfl⟩ := List.mem_map.mp hk
    cases (hmem hp).symm.trans hget
    exact hp
  · rw [ExtTreeMap.getElem?_ofList_of_contains_eq_false (by simpa using hk)] at hget
    cases hget

theorem ofList_toList : ExtTreeMap.ofList t.toList = t := by
  refine ExtTreeMap.ext_getElem? fun k => Option.ext fun v => ?_
  have hnodup : (t.toList.map Prod.fst).Nodup := by
    rw [ExtTreeMap.map_fst_toList_eq_keys]
    exact t.nodup_keys
  rw [get_ofList_eq_some hnodup, ExtTreeMap.mem_toList_iff_getElem?_eq_some]

theorem eq_or_lt_of_keys_getLast? {k j : κ} {v : ν} (h : t.keys.getLast? = some k)
    (hj : t[j]? = some v) : j = k ∨ compare j k = .lt := by
  obtain ⟨ks, hks⟩ := List.getLast?_eq_some_iff.mp h
  have hmem : j ∈ t.keys := t.mem_keys_iff.mpr ⟨v, hj⟩
  have hord := t.ordered_keys
  rw [hks] at hmem hord
  rcases List.mem_append.mp hmem with hin | hlast
  · exact .inr ((List.pairwise_append.mp hord).2.2 j hin k (by simp))
  · exact .inl (by simpa using hlast)

theorem keys_getLast?_eq_none : t.keys.getLast? = none ↔ ∀ k : κ, t[k]? = none := by
  rw [List.getLast?_eq_none_iff, List.eq_nil_iff_forall_not_mem]
  simp only [mem_keys_iff, not_exists, Option.eq_none_iff_forall_ne_some, ne_eq]

/-- When values determine their keys, the values at some of the keys are listed alike
exactly if the lookups of those keys agree. -/
theorem filter_values_eq_iff {t t' : Table κ ν} {key : ν → κ} {p : κ → Bool}
    (h : ∀ (k : κ) (v : ν), t[k]? = some v → key v = k)
    (h' : ∀ (k : κ) (v : ν), t'[k]? = some v → key v = k) :
    (t.toList.filter fun q => p q.1).map Prod.snd = (t'.toList.filter fun q => p q.1).map Prod.snd ↔
      ∀ k : κ, p k → t[k]? = t'[k]? := by
  have hmem : ∀ (t : Table κ ν), (∀ (k : κ) (v : ν), t[k]? = some v → key v = k) →
      ∀ (k : κ) (v : ν), p k → (t[k]? = some v ↔
        v ∈ (t.toList.filter fun q => p q.1).map Prod.snd ∧ key v = k) := by
    intro t h k v hk
    simp only [List.mem_map, List.mem_filter, Prod.exists, exists_eq_right,
      ExtTreeMap.mem_toList_iff_getElem?_eq_some]
    constructor
    · intro hv
      exact ⟨⟨k, hv, hk⟩, h k v hv⟩
    · rintro ⟨⟨k', hv, -⟩, rfl⟩
      rwa [h k' v hv]
  constructor
  · intro heq k hk
    ext v
    rw [hmem t h k v hk, hmem t' h' k v hk, heq]
  · intro heq
    have htables : t.filter (fun k _ => p k) = t'.filter fun k _ => p k := by
      refine ExtTreeMap.ext_getElem? fun k => ?_
      rw [get_filter, get_filter]
      by_cases hk : p k
      · rw [heq k hk]
      · simp [hk]
    rw [← toList_filter t fun k _ => p k, ← toList_filter t' fun k _ => p k, htables]

end Enumeration

variable {κ ν : Type*} [Ord κ] [TransOrd κ]

/-- The entries of a table in an order in which an iteration may come to them. -/
structure Iteration (t : Table κ ν) where
  entries : List (κ × ν)
  perm : entries.Perm t.toList

namespace Iteration

variable {t : Table κ ν} {k : κ} {v : ν} {front : List (κ × ν)}

def sorted (t : Table κ ν) : t.Iteration := ⟨t.toList, .refl _⟩

theorem exists_append (h : front.Subperm t.toList) :
    ∃ (it : t.Iteration) (rest : List (κ × ν)), it.entries = front ++ rest := by
  obtain ⟨l, hperm, hsub⟩ := h
  obtain ⟨rest, hrest⟩ := hsub.exists_perm_append
  exact ⟨⟨front ++ rest, (hperm.symm.append_right rest).trans hrest.symm⟩, rest, rfl⟩

variable [LawfulEqOrd κ]

theorem mem_entries (it : t.Iteration) : (k, v) ∈ it.entries ↔ t[k]? = some v := by
  rw [it.perm.mem_iff, ExtTreeMap.mem_toList_iff_getElem?_eq_some]

theorem exists_cons (h : t[k]? = some v) :
    ∃ (it : t.Iteration) (rest : List (κ × ν)), it.entries = (k, v) :: rest :=
  exists_append (List.singleton_subperm_iff.mpr (ExtTreeMap.mem_toList_iff_getElem?_eq_some.mpr h))

end Iteration

end Table
