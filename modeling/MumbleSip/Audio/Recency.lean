import MumbleSip.Audio.Cache
import MumbleSip.Lib.Lru

/-!
# The cache holds the most recently used phrases

`CacheState` is a map of `cacheCapacity` keys that evicts the least recently used one: its deque is the window
of the recency list, read backwards, and its map has the value stored last for each key of the window.
-/

namespace MumbleSip

abbrev CacheOp := Lru.Op String Pcm

namespace CacheState

variable {cache : CacheState} {m : Lru String Pcm} {key : String}

def step (cache : CacheState) : CacheOp → CacheState
  | .get key => (cache.get key).2
  | .insert key value => cache.insert key value

/-- The cache after operations, the earliest first. -/
def run (ops : List CacheOp) : CacheState := ops.foldl step new

/-- The map that the cache stands for. -/
def lru (ops : List CacheOp) : Lru String Pcm := ops.foldl (Lru.step cacheCapacity) .empty

structure Refines (cache : CacheState) (m : Lru String Pcm) : Prop where
  order : cache.order = (m.held cacheCapacity).reverse
  values : ∀ key, cache.values.lookup key = m.lookup cacheCapacity key
  nodup : m.recent.Nodup
  stored : ∀ key ∈ m.recent, (m.stored key).isSome = true

theorem Refines.nodup_held (h : cache.Refines m) : (m.held cacheCapacity).Nodup :=
  h.nodup.sublist (List.take_sublist _ _)

theorem Refines.cached_iff (h : cache.Refines m) : cache.Cached key ↔ key ∈ m.held cacheCapacity := by
  rw [Cached, h.values, Lru.lookup]
  split
  · rename_i hheld
    exact iff_of_true (h.stored key (List.mem_of_mem_take hheld)) hheld
  · rename_i hheld
    exact iff_of_false (by decide) hheld

theorem Refines.size_eq (h : cache.Refines m) : cache.values.size = (m.held cacheCapacity).length := by
  have hperm : cache.values.keys.Perm (m.held cacheCapacity) := by
    rw [List.perm_ext_iff_of_nodup cache.values.keys_nodup h.nodup_held]
    intro key
    rw [← h.cached_iff, ← AList.mem_keys, Cached, AList.lookup_isSome]
  exact hperm.length_eq

theorem touch_reverse {l : List String} (hl : l.Nodup) : touch l.reverse key = (Lru.use key l).reverse := by
  have hreverse : l.reverse.erase key = (l.erase key).reverse := by
    rw [(List.nodup_reverse.2 hl).erase_eq_filter, hl.erase_eq_filter, List.filter_reverse]
  rw [touch, Lru.use, List.reverse_cons, hreverse]

theorem Refines.touch (h : cache.Refines m) (hheld : key ∈ m.held cacheCapacity) :
    CacheState.touch cache.order key = ((Lru.use key m.recent).take cacheCapacity).reverse := by
  rw [h.order, touch_reverse h.nodup_held, Lru.take_use_of_mem hheld]
  rfl

theorem Refines.get (h : cache.Refines m) (key : String) :
    (cache.get key).2.Refines (m.step cacheCapacity (.get key)) := by
  have hmem : ∀ key', key' ∈ (m.step cacheCapacity (.get key)).held cacheCapacity ↔
      key' ∈ m.held cacheCapacity := by
    intro key'
    rw [Lru.step]
    split
    · rename_i hheld
      show key' ∈ (Lru.use key m.recent).take cacheCapacity ↔ _
      rw [Lru.take_use_of_mem hheld, Lru.mem_use]
      exact ⟨fun hkey' => hkey'.elim (fun heq => heq ▸ hheld) id, .inr⟩
    · exact Iff.rfl
  have hstored : (m.step cacheCapacity (.get key)).stored = m.stored := by
    rw [Lru.step]
    split <;> rfl
  refine ⟨?_, fun key' => ?_, Lru.nodup_step h.nodup _, Lru.stored_step h.stored _⟩
  · by_cases hheld : key ∈ m.held cacheCapacity
    · obtain ⟨value, hvalue⟩ := Option.isSome_iff_exists.1 (h.cached_iff.2 hheld)
      rw [CacheState.get, hvalue, Lru.step, if_pos hheld]
      exact h.touch hheld
    · have hvalue : cache.values.lookup key = none := by
        rw [h.values, Lru.lookup, if_neg hheld]
      rw [CacheState.get, hvalue, Lru.step, if_neg hheld]
      exact h.order
  · rw [values_get, h.values, Lru.lookup, Lru.lookup, hstored]
    simp only [hmem]

theorem Refines.evict (h : cache.Refines m) :
    cache.evict.order = (m.recent.take (cacheCapacity - 1)).reverse ∧ ∀ key,
      cache.evict.values.lookup key = if key ∈ m.recent.take (cacheCapacity - 1) then m.stored key else none := by
  have hcapacity : cacheCapacity = 64 := rfl
  have hwindow : (m.held cacheCapacity).take (cacheCapacity - 1) = m.recent.take (cacheCapacity - 1) := by
    rw [Lru.held, List.take_take]
    rfl
  unfold CacheState.evict
  split
  · rename_i hfull
    rw [h.size_eq] at hfull
    cases horder : cache.order with
    | nil =>
      rw [h.order, List.reverse_eq_nil_iff] at horder
      rw [horder, List.length_nil] at hfull
      omega
    | cons oldest order =>
      rw [h.order, List.reverse_eq_cons_iff] at horder
      have hlength : order.reverse.length = cacheCapacity - 1 := by
        have := List.length_take_le cacheCapacity m.recent
        rw [Lru.held] at horder hfull
        rw [horder, List.length_append, List.length_singleton] at this hfull
        omega
      have htake : m.recent.take (cacheCapacity - 1) = order.reverse := by
        rw [← hwindow, horder, List.take_left' hlength]
      refine ⟨by rw [htake, List.reverse_reverse], fun key => ?_⟩
      have hnodup := h.nodup_held
      rw [horder, List.nodup_append] at hnodup
      simp only [FiniteMap.lookup_erase, h.values, Lru.lookup, htake, horder, List.mem_append,
        List.mem_singleton]
      by_cases heq : key = oldest
      · have hnot : key ∉ order.reverse := fun hmem => hnodup.2.2 key hmem oldest List.mem_cons_self heq
        rw [if_pos heq, if_neg hnot]
      · simp only [heq, if_false, or_false]
  · rename_i hroom
    rw [h.size_eq] at hroom
    have hshort : m.recent.length < cacheCapacity := by
      rw [Lru.held, List.length_take] at hroom
      omega
    have htake : m.recent.take (cacheCapacity - 1) = m.held cacheCapacity := by
      rw [Lru.held, List.take_of_length_le (by omega), List.take_of_length_le (by omega)]
    rw [htake]
    exact ⟨h.order, h.values⟩

theorem Refines.insert (h : cache.Refines m) (key : String) (value : Pcm) :
    (cache.insert key value).Refines (m.step cacheCapacity (.insert key value)) := by
  unfold CacheState.insert
  split
  · rename_i hcached
    have hheld := h.cached_iff.1 hcached
    refine ⟨h.touch hheld, fun key' => ?_, Lru.nodup_step h.nodup _, Lru.stored_step h.stored _⟩
    show (cache.values.insert key value).lookup key' = if key' ∈ (Lru.use key m.recent).take cacheCapacity
      then if key' = key then some value else m.stored key' else none
    rw [FiniteMap.lookup_insert, Lru.take_use_of_mem hheld, h.values, Lru.lookup]
    by_cases heq : key' = key
    · rw [if_pos heq, if_pos heq, if_pos (Lru.mem_use.2 (.inl heq))]
    · simp only [heq, if_false, Lru.mem_use, false_or]
      rfl
  · rename_i hmiss
    have hnot : key ∉ m.held cacheCapacity := fun hheld => hmiss (h.cached_iff.2 hheld)
    have hheld : (Lru.use key m.recent).take cacheCapacity = key :: m.recent.take (cacheCapacity - 1) :=
      Lru.take_use_of_not_mem (by decide) hnot
    obtain ⟨horder, hvalues⟩ := h.evict
    refine ⟨?_, fun key' => ?_, Lru.nodup_step h.nodup _, Lru.stored_step h.stored _⟩
    · show cache.evict.order ++ [key] = ((Lru.use key m.recent).take cacheCapacity).reverse
      rw [hheld, List.reverse_cons, horder]
    · show (cache.evict.values.insert key value).lookup key' =
        if key' ∈ (Lru.use key m.recent).take cacheCapacity
        then if key' = key then some value else m.stored key' else none
      rw [FiniteMap.lookup_insert, hheld, hvalues]
      by_cases heq : key' = key
      · rw [if_pos heq, if_pos heq, if_pos (List.mem_cons.2 (.inl heq))]
      · simp only [heq, if_false, List.mem_cons, false_or]

theorem refines_run (ops : List CacheOp) : (run ops).Refines (lru ops) := by
  induction ops using List.reverseRecOn with
  | nil => exact ⟨rfl, fun _ => rfl, List.nodup_nil, nofun⟩
  | append_singleton ops op ih =>
    rw [run, lru, List.foldl_append, List.foldl_append]
    cases op with
    | get key => exact ih.get key
    | insert key value => exact ih.insert key value

theorem insert_of_cached (h : cache.Cached key) (value : Pcm) :
    cache.insert key value = ⟨cache.values.insert key value, CacheState.touch cache.order key⟩ :=
  if_pos h

theorem insert_of_not_cached (h : ¬cache.Cached key) (value : Pcm) : cache.insert key value
    = ⟨cache.evict.values.insert key value, cache.evict.order ++ [key]⟩ :=
  if_neg h

/-- The key that the insertion of a new one into a full cache evicts. -/
def evicted (cache : CacheState) (key : String) : Option String :=
  if cache.Cached key ∨ cache.values.size < cacheCapacity then none else cache.order.head?

/-- An insertion evicts the least recently used key if the cache is full and the key is new, and nothing
else. -/
theorem cached_insert_iff (cache : CacheState) (key : String) (value : Pcm) (key' : String) :
    (cache.insert key value).Cached key' ↔
      key' = key ∨ cache.Cached key' ∧ cache.evicted key ≠ some key' := by
  by_cases hcached : cache.Cached key
  · have hinsert : (cache.insert key value).Cached key' ↔ key' = key ∨ cache.Cached key' := by
      rw [insert_of_cached hcached, Cached, FiniteMap.lookup_insert]
      split
      · rename_i heq
        exact iff_of_true rfl (.inl heq)
      · rename_i hne
        exact ⟨.inr, fun hor => hor.resolve_left hne⟩
    rw [hinsert, evicted, if_pos (.inl hcached)]
    simp only [ne_eq, reduceCtorEq, not_false_eq_true, and_true]
  · have hinsert : (cache.insert key value).Cached key' ↔ key' = key ∨ cache.evict.Cached key' := by
      rw [insert_of_not_cached hcached, Cached, FiniteMap.lookup_insert]
      split
      · rename_i heq
        exact iff_of_true rfl (.inl heq)
      · rename_i hne
        exact ⟨.inr, fun hor => hor.resolve_left hne⟩
    rw [hinsert]
    refine or_congr_right ?_
    unfold CacheState.evict evicted
    split
    · rename_i hfull
      rw [if_neg (not_or.2 ⟨hcached, Nat.not_lt.2 hfull⟩)]
      cases horder : cache.order with
      | nil => exact ⟨fun hkey' => ⟨hkey', fun h => by cases h⟩, And.left⟩
      | cons oldest order =>
        simp only [Cached, FiniteMap.lookup_erase, List.head?_cons, Option.some_inj, ne_eq]
        by_cases heq : key' = oldest
        · simp [heq]
        · simp only [heq, if_false, Ne.symm heq, not_false_eq_true, and_true]
    · rename_i hroom
      rw [if_pos (.inr (Nat.not_le.1 hroom))]
      exact ⟨fun hkey' => ⟨hkey', fun h => by cases h⟩, And.left⟩

end CacheState

/-- After any operations the cache has at most `cacheCapacity` keys, each once in `order`, from the least to the
most recently used; a key can be got exactly if it is among the `cacheCapacity` keys used last, and then it has
the value inserted last. Only the insertion of a new key into a full cache evicts a key, the least recently
used. -/
theorem cache_is_lru (ops : List CacheOp) :
    (CacheState.run ops).order.Nodup ∧
    (∀ key, key ∈ (CacheState.run ops).order ↔ key ∈ (CacheState.run ops).values.keys) ∧
    (CacheState.run ops).values.size ≤ cacheCapacity ∧
    (CacheState.run ops).order = ((CacheState.lru ops).held cacheCapacity).reverse ∧
    (∀ key, ((CacheState.run ops).get key).1 = (CacheState.lru ops).lookup cacheCapacity key) ∧
    (∀ key value key', ((CacheState.run ops).insert key value).Cached key' ↔
      key' = key ∨ (CacheState.run ops).Cached key' ∧ (CacheState.run ops).evicted key ≠ some key') ∧
    ∀ key key', ((CacheState.run ops).get key).2.Cached key' ↔ (CacheState.run ops).Cached key' := by
  have h := CacheState.refines_run ops
  refine ⟨?_, fun key => ?_, ?_, h.order, fun key => ?_,
    fun key value key' => CacheState.cached_insert_iff _ key value key', fun key key' => CacheState.cached_get _ _ _⟩
  · rw [h.order, List.nodup_reverse]
    exact h.nodup_held
  · rw [h.order, List.mem_reverse, ← h.cached_iff, ← AList.mem_keys, CacheState.Cached, AList.lookup_isSome]
  · rw [h.size_eq]
    exact List.length_take_le _ _
  · rw [← h.values, CacheState.get]
    split
    · rename_i value hvalue
      exact hvalue.symm
    · rename_i hvalue
      exact hvalue.symm

end MumbleSip
