import MumbleSip.Lib.FiniteMap

/-!
# The TTS cache

`CacheState` of `tts.rs`: synthesized phrases by cache key, and the keys from the least to the most recently
used one.
-/

namespace MumbleSip

/-- Samples, a `Vec<i16>`. -/
abbrev Pcm := List Int16

def cacheCapacity : Nat := 64

structure CacheState where
  values : FiniteMap String Pcm
  order : List String

namespace CacheState

def new : CacheState := ⟨∅, []⟩

/-- The key is taken from its position and pushed to the back. -/
def touch (order : List String) (key : String) : List String := order.erase key ++ [key]

def get (cache : CacheState) (key : String) : Option Pcm × CacheState :=
  match cache.values.lookup key with
  | some value => (some value, { cache with order := touch cache.order key })
  | none => (none, cache)

/-- Make room for a new key. -/
def evict (cache : CacheState) : CacheState :=
  if cacheCapacity ≤ cache.values.size then
    match cache.order with
    | oldest :: order => ⟨cache.values.erase oldest, order⟩
    | [] => cache
  else cache

def insert (cache : CacheState) (key : String) (value : Pcm) : CacheState :=
  if (cache.values.lookup key).isSome then
    ⟨cache.values.insert key value, touch cache.order key⟩
  else ⟨cache.evict.values.insert key value, cache.evict.order ++ [key]⟩

/-- A phrase is cached under the key. -/
def Cached (cache : CacheState) (key : String) : Prop := (cache.values.lookup key).isSome = true

instance (cache : CacheState) (key : String) : Decidable (cache.Cached key) :=
  inferInstanceAs (Decidable (_ = _))

theorem values_get (cache : CacheState) (key : String) : (cache.get key).2.values = cache.values := by
  unfold get
  split <;> rfl

theorem cached_get (cache : CacheState) (key key' : String) :
    (cache.get key).2.Cached key' ↔ cache.Cached key' := by
  rw [Cached, Cached, values_get]

theorem get_eq_none {cache : CacheState} {key : String} :
    (cache.get key).1 = none ↔ ¬cache.Cached key := by
  unfold get Cached
  cases hvalue : cache.values.lookup key <;> simp

theorem cached_evict {cache : CacheState} {key : String} (h : cache.evict.Cached key) :
    cache.Cached key := by
  unfold evict at h
  split at h
  · split at h
    · rename_i oldest order horder
      obtain ⟨value, hvalue⟩ := Option.isSome_iff_exists.1 h
      exact Option.isSome_iff_exists.2 ⟨value, FiniteMap.lookup_of_erase hvalue⟩
    · exact h
  · exact h

theorem cached_insert {cache : CacheState} {key key' : String} {value : Pcm} (hne : key' ≠ key)
    (h : (cache.insert key value).Cached key') : cache.Cached key' := by
  unfold insert at h
  split at h
  · simpa only [Cached, FiniteMap.lookup_insert, if_neg hne] using h
  · apply cached_evict
    simpa only [Cached, FiniteMap.lookup_insert, if_neg hne] using h

end CacheState

end MumbleSip
