import Mathlib.Data.List.AList
import Mathlib.Data.Finset.Card

/-!
# Finite maps

A hash map is an association list without duplicate keys. Mathlib has the operations; this adds the
lookups after an update in one equation, and the size of a map as the size of what it indexes.
-/

/-- A finite map from `K` to `V`. -/
abbrev FiniteMap (K V : Type*) := AList fun _ : K => V

namespace FiniteMap

variable {K V : Type*} [DecidableEq K]

theorem lookup_insert (m : FiniteMap K V) (k k' : K) (v : V) :
    (m.insert k v).lookup k' = if k' = k then some v else m.lookup k' := by
  split
  · subst k'
    exact AList.lookup_insert m
  · exact AList.lookup_insert_ne ‹_›

theorem lookup_erase (m : FiniteMap K V) (k k' : K) :
    (m.erase k).lookup k' = if k' = k then none else m.lookup k' := by
  split
  · subst k'
    exact AList.lookup_erase _ m
  · exact AList.lookup_erase_ne ‹_›

theorem lookup_of_erase {m : FiniteMap K V} {k k' : K} {v : V} (h : (m.erase k).lookup k' = some v) :
    m.lookup k' = some v := by
  rw [lookup_erase] at h
  split at h
  · cases h
  · exact h

theorem eq_empty_of_lookup {m : FiniteMap K V} (h : ∀ k, m.lookup k = none) : m = ∅ := by
  apply AList.ext
  cases he : m.entries with
  | nil => rfl
  | cons e es =>
    exfalso
    have hmem : e.1 ∈ m := by
      rw [AList.mem_keys, AList.keys, he]
      exact List.mem_cons_self
    exact AList.lookup_eq_none.1 (h e.1) hmem

/-- Every value replaced by one made from it and its key. -/
def mapValues {W : Type*} (f : K → V → W) (m : FiniteMap K V) : FiniteMap K W :=
  ⟨m.entries.map (Sigma.map id f), m.nodupKeys.map₂ f m.entries⟩

theorem lookup_mapValues {W : Type*} (f : K → V → W) (m : FiniteMap K V) (k : K) :
    (m.mapValues f).lookup k = (m.lookup k).map (f k) :=
  List.dlookup_map₂ k

/-- The entries of all listed keys are removed. -/
def eraseAll (m : FiniteMap K V) (ks : List K) : FiniteMap K V := ks.foldl (fun m k => m.erase k) m

theorem lookup_eraseAll (m : FiniteMap K V) (ks : List K) (k : K) :
    (m.eraseAll ks).lookup k = if k ∈ ks then none else m.lookup k := by
  induction ks generalizing m with
  | nil => rfl
  | cons k' ks ih =>
    rw [eraseAll, List.foldl_cons, ← eraseAll, ih, lookup_erase]
    by_cases hk : k = k'
    · subst k'
      rw [if_pos rfl, if_pos List.mem_cons_self, ite_self]
    · by_cases hks : k ∈ ks
      · rw [if_pos hks, if_pos (List.mem_cons_of_mem _ hks)]
      · rw [if_neg hks, if_neg hk, if_neg]
        rw [List.mem_cons, not_or]
        exact ⟨hk, hks⟩

/-- What is stored under some key. -/
def values (m : FiniteMap K V) : List V := m.entries.map Sigma.snd

theorem mem_values {m : FiniteMap K V} {v : V} : v ∈ m.values ↔ ∃ k, m.lookup k = some v := by
  rw [values, List.mem_map]
  constructor
  · intro h
    obtain ⟨e, he, rfl⟩ := h
    exact ⟨e.1, AList.mem_lookup_iff.2 he⟩
  · intro h
    obtain ⟨k, hk⟩ := h
    exact ⟨⟨k, v⟩, AList.mem_lookup_iff.1 hk, rfl⟩

/-- The number of entries. -/
def size (m : FiniteMap K V) : Nat := m.keys.length

theorem lookup_of_size_eq_zero {m : FiniteMap K V} (h : m.size = 0) (k : K) : m.lookup k = none := by
  rw [AList.lookup_eq_none, AList.mem_keys, List.length_eq_zero_iff.1 h]
  exact List.not_mem_nil

/-- A map whose entries are exactly the images of a finite set under an injective key has that set's size. -/
theorem size_eq_card {ι : Type*} {m : FiniteMap K V} {t : Finset ι} (key : ι → K)
    (hinj : Set.InjOn key t) (hkeys : ∀ k, k ∈ m ↔ ∃ i ∈ t, key i = k) : m.size = t.card := by
  classical
  have himage : m.keys.toFinset = t.image key := by
    ext k
    rw [List.mem_toFinset, ← AList.mem_keys, hkeys, Finset.mem_image]
  rw [size, ← List.toFinset_card_of_nodup m.keys_nodup, himage, Finset.card_image_of_injOn hinj]

end FiniteMap
