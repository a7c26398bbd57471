import Mathlib.Data.List.AList
/-!
# BoundedMaps — maps with room for so many keys

A map whose number of keys never passes its capacity: a key that is there can be given a new value, a new key finds
room or does not (`insert?`), and keys are removed by a condition on the key (`keep`).  What a map holds is read with
`get?`; every operation has one equation for it.
-/
namespace Scrapcode

structure BoundedMap (κ ν : Type) (cap : Nat) where
  map   : AList (fun _ : κ => ν)
  small : map.entries.length ≤ cap

namespace BoundedMap

variable {κ ν : Type} {cap : Nat}

def empty : BoundedMap κ ν cap := ⟨∅, Nat.zero_le cap⟩

def keys (m : BoundedMap κ ν cap) : List κ := m.map.keys

/-- What is left with the keys that meet `p`. -/
def keep (p : κ → Bool) (m : BoundedMap κ ν cap) : BoundedMap κ ν cap where
  map   := ⟨m.map.entries.filter (fun e => p e.1), m.map.nodupKeys.sublist List.filter_sublist⟩
  small := Nat.le_trans (List.length_filter_le _ _) m.small

variable [DecidableEq κ]

def get? (m : BoundedMap κ ν cap) (k : κ) : Option ν := m.map.lookup k

def erase (k : κ) (m : BoundedMap κ ν cap) : BoundedMap κ ν cap := m.keep (fun k' => decide (k' ≠ k))

theorem length_insert_le (m : BoundedMap κ ν cap) {k : κ} (v : ν)
    (h : k ∈ m.map ∨ m.map.entries.length < cap) : (m.map.insert k v).entries.length ≤ cap := by
  have hlen : ∀ a : AList (fun _ : κ => ν), a.entries.length = a.keys.length := fun a => by
    simp [AList.keys, List.keys]
  have hsmall := m.small
  rw [hlen, AList.keys_insert, List.length_cons]
  rw [hlen] at h hsmall
  by_cases hk : k ∈ m.map
  · have hpos := List.length_pos_of_mem (AList.mem_keys.1 hk)
    rw [List.length_erase_of_mem (AList.mem_keys.1 hk)]
    omega
  · rw [List.erase_of_not_mem (mt AList.mem_keys.2 hk)]
    have := h.resolve_left hk
    omega

/-- The value of a key, if the key is there or finds room. -/
def insert? (m : BoundedMap κ ν cap) (k : κ) (v : ν) : Option (BoundedMap κ ν cap) :=
  if h : k ∈ m.map ∨ m.map.entries.length < cap then some ⟨m.map.insert k v, m.length_insert_le v h⟩ else none

@[simp] theorem get?_empty (k : κ) : (empty : BoundedMap κ ν cap).get? k = none := AList.lookup_empty k

theorem get?_insert? {m t : BoundedMap κ ν cap} {k : κ} {v : ν} (h : m.insert? k v = some t) :
    t.get? = Function.update m.get? k (some v) := by
  unfold insert? at h
  split at h
  · cases h
    funext k'
    by_cases hk : k' = k
    · subst hk
      rw [Function.update_self]; exact AList.lookup_insert _
    · rw [Function.update_of_ne hk]; exact AList.lookup_insert_ne hk
  · cases h

theorem mem_keys {m : BoundedMap κ ν cap} {k : κ} : k ∈ m.keys ↔ (m.get? k).isSome := by
  rw [get?, AList.lookup_isSome]; exact AList.mem_keys.symm

theorem get?_keep (p : κ → Bool) (m : BoundedMap κ ν cap) (k : κ) :
    (m.keep p).get? k = if p k then m.get? k else none := by
  have hmem : ∀ v, v ∈ (m.keep p).get? k ↔ p k = true ∧ v ∈ m.get? k := fun v => by
    unfold get? keep
    rw [AList.mem_lookup_iff, AList.mem_lookup_iff, List.mem_filter, and_comm]
  by_cases hp : p k
  · rw [if_pos hp]
    exact Option.ext (fun v => (hmem v).trans (and_iff_right hp))
  · rw [if_neg hp]
    exact Option.eq_none_iff_forall_not_mem.2 (fun v hv => hp ((hmem v).1 hv).1)

theorem get?_erase (k : κ) (m : BoundedMap κ ν cap) : (m.erase k).get? = Function.update m.get? k none := by
  funext k'
  rw [erase, get?_keep]
  by_cases hk : k' = k
  · subst hk; simp
  · simp [hk]

/-- **No more keys than the capacity.** -/
theorem length_le_cap {m : BoundedMap κ ν cap} {ks : List κ} (hnd : ks.Nodup) (h : ∀ k ∈ ks, (m.get? k).isSome) :
    ks.length ≤ cap := by
  have hsub : ks ⊆ m.keys := fun k hk => mem_keys.2 (h k hk)
  have hlen : m.keys.length = m.map.entries.length := by simp [keys, AList.keys, List.keys]
  exact Nat.le_trans (List.subperm_of_subset hnd hsub).length_le (hlen ▸ m.small)

end BoundedMap
end Scrapcode
