import DumbDistributedLog.Library.Runs
import DumbDistributedLog.Library.Tables

/-! # The cache of answers

An entry is found until it expires. A new key in a full cache takes the place of another one.
The cache holds part of a map that forgets only what is invalidated, and never more entries than
it may.
-/

namespace DumbDistributedLog.Peer

open Runs

structure CacheEntry (V : Type*) where
  value : V
  expiresAt : ℕ
  deriving DecidableEq, Repr

structure PeerCache (V : Type*) where
  entries : Table String (CacheEntry V)
  defaultTtl : ℕ
  maxEntries : ℕ

namespace PeerCache

variable {V : Type*}

def new (defaultTtl maxEntries : ℕ) : PeerCache V := ⟨∅, defaultTtl, maxEntries⟩

variable (c : PeerCache V)

def remove (key : String) : PeerCache V := { c with entries := c.entries.erase key }

def get (key : String) (now : ℕ) : PeerCache V × Option V :=
  match c.entries[key]? with
  | some entry => if now < entry.expiresAt then (c, some entry.value) else (c.remove key, none)
  | none => (c.remove key, none)

/-- The key that the iteration comes to first is removed. -/
def evict (victim : ℕ) : PeerCache V :=
  match c.entries.keys[victim % c.entries.size]? with
  | some key => c.remove key
  | none => c

/-- A new key of a full cache has room made for it before it is stored. -/
def makeRoom (key : String) (victim : ℕ) : PeerCache V :=
  if c.maxEntries ≤ c.entries.size ∧ key ∉ c.entries then c.evict victim else c

def set (key : String) (value : V) (ttl : Option ℕ) (now victim : ℕ) : PeerCache V :=
  { c with
    entries := (c.makeRoom key victim).entries.insert key
      ⟨value, now + ttl.getD c.defaultTtl⟩ }

def invalidate (key : String) : PeerCache V × Option V :=
  (c.remove key, c.entries[key]?.map (·.value))

def clearExpired (now : ℕ) : PeerCache V × ℕ :=
  ({ c with entries := c.entries.filter fun _ entry => now < entry.expiresAt },
    c.entries.toList.countP fun entry => entry.2.expiresAt ≤ now)

def len : ℕ := c.entries.size

variable {c} {key k : String} {value v : V} {ttl : Option ℕ} {now victim : ℕ} {entry : CacheEntry V}

theorem get_eq_some : (c.get key now).2 = some v ↔
    ∃ entry, c.entries[key]? = some entry ∧ now < entry.expiresAt ∧ entry.value = v := by
  unfold get
  cases c.entries[key]? with
  | none => simp
  | some entry => by_cases hnow : now < entry.expiresAt <;> simp [hnow]

theorem entries_remove (h : (c.remove key).entries[k]? = some entry) :
    c.entries[k]? = some entry :=
  ((Table.get_erase_eq_some _).mp h).2

theorem entries_get (h : (c.get key now).1.entries[k]? = some entry) :
    c.entries[k]? = some entry := by
  unfold get at h
  split at h
  · split_ifs at h
    · exact h
    · exact entries_remove h
  · exact entries_remove h

theorem entries_evict (h : (c.evict victim).entries[k]? = some entry) :
    c.entries[k]? = some entry := by
  unfold evict at h
  split at h
  · exact entries_remove h
  · exact h

theorem entries_makeRoom (h : (c.makeRoom key victim).entries[k]? = some entry) :
    c.entries[k]? = some entry := by
  unfold makeRoom at h
  split_ifs at h
  · exact entries_evict h
  · exact h

theorem entries_set (h : (c.set key value ttl now victim).entries[k]? = some entry) :
    (key = k ∧ entry.value = value) ∨ (key ≠ k ∧ c.entries[k]? = some entry) := by
  rw [set, Table.get_insert] at h
  split_ifs at h with hkey
  · cases h
    exact .inl ⟨hkey, rfl⟩
  · exact .inr ⟨hkey, entries_makeRoom h⟩

theorem len_remove_le : (c.remove key).len ≤ c.len := Std.ExtTreeMap.size_erase_le

theorem len_get_le : (c.get key now).1.len ≤ c.len := by
  unfold get
  split
  · split_ifs
    · exact Nat.le_refl _
    · exact len_remove_le
  · exact len_remove_le

theorem len_clearExpired_le : (c.clearExpired now).1.len ≤ c.len := by
  rw [len, clearExpired, Table.size_filter]
  exact Nat.le_trans (List.length_filter_le _ _) (Std.ExtTreeMap.length_toList).le

theorem len_evict (hpos : 0 < c.len) : (c.evict victim).len + 1 = c.len := by
  have hlt : victim % c.entries.size < c.entries.keys.length := by
    rw [Std.ExtTreeMap.length_keys]
    exact Nat.mod_lt _ hpos
  have hmem : c.entries.keys.get ⟨_, hlt⟩ ∈ c.entries :=
    Std.ExtTreeMap.mem_keys.mp (List.get_mem _ _)
  have hsize : (c.remove (c.entries.keys.get ⟨_, hlt⟩)).len = c.len - 1 := by
    simp only [len, remove, Std.ExtTreeMap.size_erase, Std.ExtTreeMap.contains_iff_mem,
      if_pos hmem]
  rw [evict, List.getElem?_eq_getElem hlt]
  exact hsize ▸ Nat.sub_add_cancel hpos

theorem len_makeRoom_le : (c.makeRoom key victim).len ≤ c.len := by
  unfold makeRoom
  split_ifs with hfull
  · rw [evict]
    split
    · exact len_remove_le
    · exact Nat.le_refl _
  · exact Nat.le_refl _

theorem len_makeRoom_lt (hmax : 1 ≤ c.maxEntries) (h : c.len ≤ c.maxEntries)
    (hkey : key ∉ c.entries) : (c.makeRoom key victim).len < c.maxEntries := by
  unfold makeRoom
  split_ifs with hfull
  · have hlen : (c.evict victim).len + 1 = c.len := len_evict (Nat.lt_of_lt_of_le hmax hfull.1)
    omega
  · exact Nat.lt_of_not_le fun hle => hfull ⟨hle, hkey⟩

theorem len_set_le (hmax : 1 ≤ c.maxEntries) (h : c.len ≤ c.maxEntries) :
    (c.set key value ttl now victim).len ≤ c.maxEntries := by
  rw [set, len, Std.ExtTreeMap.size_insert]
  split_ifs with hroom
  · exact Nat.le_trans len_makeRoom_le h
  · refine len_makeRoom_lt hmax h fun hkey => hroom ?_
    rwa [makeRoom, if_neg (by simp [hkey])]

end PeerCache

inductive CacheCall (V : Type*) where
  | set (key : String) (value : V) (ttl : Option ℕ) (now victim : ℕ)
  | get (key : String) (now : ℕ)
  | invalidate (key : String)
  | clearExpired (now : ℕ)

namespace PeerCache

variable {V : Type*}

/-- One call. An expiry after the last instant there is panics when room has been made. -/
def step (lastInstant : ℕ) (c : PeerCache V) : CacheCall V → PeerCache V
  | .set key value ttl now victim =>
    if now + ttl.getD c.defaultTtl ≤ lastInstant then c.set key value ttl now victim
    else c.makeRoom key victim
  | .get key now => (c.get key now).1
  | .invalidate key => (c.invalidate key).1
  | .clearExpired now => (c.clearExpired now).1

end PeerCache

/-- A map without a capacity: an entry stays until its key is invalidated or set again. -/
abbrev ExpiringMap (V : Type*) := String → Option (CacheEntry V)

namespace ExpiringMap

variable {V : Type*}

def step (lastInstant defaultTtl : ℕ) (m : ExpiringMap V) : CacheCall V → ExpiringMap V
  | .set key value ttl now _ =>
    if now + ttl.getD defaultTtl ≤ lastInstant then
      Function.update m key (some ⟨value, now + ttl.getD defaultTtl⟩)
    else m
  | .invalidate key => Function.update m key none
  | .get _ _ | .clearExpired _ => m

/-- The entries of the last sets that have returned and have not been invalidated since. -/
def after (lastInstant defaultTtl : ℕ) (calls : List (CacheCall V)) : ExpiringMap V :=
  exec (step lastInstant defaultTtl) (fun _ => none) calls

end ExpiringMap

namespace PeerCache

variable {V : Type*} {c : PeerCache V} {m : ExpiringMap V} {key k : String} {value v : V}
  {ttl : Option ℕ} {now victim lastInstant : ℕ} {call : CacheCall V} {calls : List (CacheCall V)}

def Within (c : PeerCache V) (m : ExpiringMap V) : Prop :=
  ∀ k entry, c.entries[k]? = some entry → m k = some entry

theorem Within.step (h : c.Within m) :
    (c.step lastInstant call).Within (m.step lastInstant c.defaultTtl call) := by
  intro k entry hk
  cases call with
  | set key value ttl now victim =>
    simp only [PeerCache.step, ExpiringMap.step] at hk ⊢
    split_ifs at hk ⊢ with hfits
    · rw [set, Table.get_insert] at hk
      by_cases hkey : key = k
      · subst hkey
        simpa using hk
      · rw [if_neg hkey] at hk
        rw [Function.update_of_ne (Ne.symm hkey)]
        exact h k entry (entries_makeRoom hk)
    · exact h k entry (entries_makeRoom hk)
  | get key now => exact h k entry (entries_get hk)
  | invalidate key =>
    obtain ⟨hkey, hk⟩ := (Table.get_erase_eq_some _).mp hk
    rw [ExpiringMap.step, Function.update_of_ne (Ne.symm hkey)]
    exact h k entry hk
  | clearExpired now =>
    refine h k entry ?_
    simp only [PeerCache.step, clearExpired, Table.get_filter, Option.filter_eq_some_iff] at hk
    exact hk.1

theorem settings_makeRoom : (c.makeRoom key victim).maxEntries = c.maxEntries ∧
    (c.makeRoom key victim).defaultTtl = c.defaultTtl := by
  unfold makeRoom evict
  split_ifs
  · split <;> exact ⟨rfl, rfl⟩
  · exact ⟨rfl, rfl⟩

theorem settings_step : (c.step lastInstant call).maxEntries = c.maxEntries ∧
    (c.step lastInstant call).defaultTtl = c.defaultTtl := by
  cases call with
  | set key value ttl now victim =>
    simp only [step]
    split_ifs
    · exact ⟨rfl, rfl⟩
    · exact settings_makeRoom
  | get key now =>
    simp only [step, get]
    split
    · split_ifs <;> exact ⟨rfl, rfl⟩
    · exact ⟨rfl, rfl⟩
  | invalidate key => exact ⟨rfl, rfl⟩
  | clearExpired now => exact ⟨rfl, rfl⟩

theorem len_step_le (hmax : 1 ≤ c.maxEntries) (h : c.len ≤ c.maxEntries) :
    (c.step lastInstant call).len ≤ c.maxEntries := by
  cases call with
  | set key value ttl now victim =>
    simp only [step]
    split_ifs
    · exact len_set_le hmax h
    · exact Nat.le_trans len_makeRoom_le h
  | get key now => exact Nat.le_trans len_get_le h
  | invalidate key => exact Nat.le_trans len_remove_le h
  | clearExpired now => exact Nat.le_trans len_clearExpired_le h

def after (lastInstant defaultTtl maxEntries : ℕ) (calls : List (CacheCall V)) : PeerCache V :=
  exec (step lastInstant) (new defaultTtl maxEntries) calls

theorem within_exec (h : c.Within m) : (exec (step lastInstant) c calls).Within
    (exec (ExpiringMap.step lastInstant c.defaultTtl) m calls) := by
  induction calls generalizing c m with
  | nil => exact h
  | cons call calls ih =>
    have hexec : (exec (step lastInstant) (c.step lastInstant call) calls).Within
        (exec (ExpiringMap.step lastInstant (c.step lastInstant call).defaultTtl)
          (m.step lastInstant c.defaultTtl call) calls) := ih h.step
    rwa [settings_step.2] at hexec

theorem get_set_of_ne (hroom : key ∈ c.entries ∨ c.len < c.maxEntries) (hk : k ≠ key) :
    (c.step lastInstant (.set key value ttl now victim)).entries[k]? = c.entries[k]? := by
  have hkeep : c.makeRoom key victim = c := by
    refine if_neg fun hfull => ?_
    rcases hroom with hmem | hlt
    · exact hfull.2 hmem
    · exact Nat.not_lt.mpr hfull.1 hlt
  simp only [step]
  split_ifs
  · rw [set, hkeep, Table.get_insert, if_neg (Ne.symm hk)]
  · rw [hkeep]

theorem not_mem_get (h : (c.get key now).2 = none) : key ∉ (c.get key now).1.entries := by
  have hremove : key ∉ (c.remove key).entries := by simp [remove]
  unfold get at h ⊢
  split at h
  · split_ifs at h ⊢ with hnow
    exact hremove
  · exact hremove

theorem within_new {defaultTtl maxEntries : ℕ} :
    (new defaultTtl maxEntries : PeerCache V).Within fun _ => none := by
  intro k entry h
  simp [new] at h

theorem bounded_exec (hmax : 1 ≤ c.maxEntries) (h : c.len ≤ c.maxEntries) :
    (exec (step lastInstant) c calls).len ≤ c.maxEntries ∧
      (exec (step lastInstant) c calls).maxEntries = c.maxEntries := by
  refine exec_inv (I := fun d : PeerCache V => d.len ≤ c.maxEntries ∧ d.maxEntries = c.maxEntries)
    (fun d call hd => ?_) ⟨h, rfl⟩
  obtain ⟨hlen, heq⟩ := hd
  rw [← heq] at hmax hlen ⊢
  exact ⟨len_step_le hmax hlen, settings_step.1⟩

/-- After every run the cache holds no more entries than it may, a lookup finds only the entry
that the expiring map has for the key and only before it expires, a set of a key that is there or
below the capacity removes no other entry, and a lookup that finds nothing leaves nothing. -/
theorem cache_refines_expiring_map (lastInstant defaultTtl maxEntries : ℕ)
    (calls : List (CacheCall V)) (hmax : 1 ≤ maxEntries) :
    (after lastInstant defaultTtl maxEntries calls).len ≤ maxEntries ∧
    (∀ key now v, ((after lastInstant defaultTtl maxEntries calls).get key now).2 = some v →
      ∃ entry, ExpiringMap.after lastInstant defaultTtl calls key = some entry ∧
        entry.value = v ∧ now < entry.expiresAt) ∧
    (∀ key value ttl now victim,
      (key ∈ (after lastInstant defaultTtl maxEntries calls).entries ∨
        (after lastInstant defaultTtl maxEntries calls).len < maxEntries) →
      ∀ k, k ≠ key →
        ((after lastInstant defaultTtl maxEntries calls).step lastInstant
          (.set key value ttl now victim)).entries[k]? =
          (after lastInstant defaultTtl maxEntries calls).entries[k]?) ∧
    ∀ key now, ((after lastInstant defaultTtl maxEntries calls).get key now).2 = none →
      key ∉ ((after lastInstant defaultTtl maxEntries calls).get key now).1.entries := by
  obtain ⟨hlen, heq⟩ : (after lastInstant defaultTtl maxEntries calls).len ≤ maxEntries ∧
      (after lastInstant defaultTtl maxEntries calls).maxEntries = maxEntries :=
    bounded_exec hmax (Nat.zero_le _)
  have hwithin : (after lastInstant defaultTtl maxEntries calls).Within
      (ExpiringMap.after lastInstant defaultTtl calls) :=
    within_exec within_new
  refine ⟨hlen, fun key now v h => ?_, fun key value ttl now victim hroom k hk => ?_,
    fun key now h => not_mem_get h⟩
  · obtain ⟨entry, hentry, hnow, hv⟩ := get_eq_some.mp h
    exact ⟨entry, hwithin key entry hentry, hv, hnow⟩
  · exact get_set_of_ne (by rwa [heq]) hk

/-- A cache of one entry forgets the old key for the new one, and the new one once it expires. -/
theorem cache_refines_expiring_map_evicted : (1 ≤ 1) ∧
    (after 100 10 1 [.set "a" true none 0 0, .set "b" false none 1 0]).len ≤ 1 ∧
    "b" ∉ ((after 100 10 1
      [.set "a" true none 0 0, .set "b" false none 1 0]).get "b" 11).1.entries := by
  have hrefines := cache_refines_expiring_map 100 10 1
    [.set "a" true none 0 0, .set "b" false none 1 0] (Nat.le_refl 1)
  exact ⟨Nat.le_refl 1, hrefines.1, hrefines.2.2.2 "b" 11 (by decide +kernel)⟩

end PeerCache

end DumbDistributedLog.Peer
