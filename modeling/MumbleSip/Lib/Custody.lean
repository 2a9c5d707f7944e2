import Mathlib.Data.List.Nodup
import Mathlib.Logic.Function.Basic

/-!
# Linear custody

Things that must be freed once, such as heap objects, are handed from place to place. If each thing is
in at most one place, what has been freed is in none, and only the place that has a thing frees it, then
nothing is freed twice. If in addition no place drops a thing that matters, it is freed or still in some
place. Both follow from the same hand-overs, with different things that may be dropped.
-/

namespace Custody

variable {π ι : Type*} [DecidableEq π]

/-- Each thing is in one place at most, and in none once it has been freed; nothing is freed twice. -/
structure Settled (content : π → Option ι) (freed : List ι) : Prop where
  linear : ∀ p q i, content p = some i → content q = some i → p = q
  free : ∀ p i, content p = some i → i ∉ freed
  nodup : freed.Nodup

variable {content : π → Option ι} {freed : List ι}

omit [DecidableEq π] in
theorem Settled.initial (place : ι → π) (h : ∀ p i, content p = some i → p = place i) :
    Settled content [] := by
  refine ⟨fun p q i hp hq => ?_, fun _ _ _ => List.not_mem_nil, List.nodup_nil⟩
  rw [h p i hp, h q i hq]

theorem of_update_none {p r : π} {i : ι} (hr : Function.update content p none r = some i) :
    r ≠ p ∧ content r = some i := by
  by_cases heq : r = p
  · rw [heq, Function.update_self] at hr
    cases hr
  · rw [Function.update_of_ne heq] at hr
    exact ⟨heq, hr⟩

/-- What is somewhere after a hand-over was somewhere before it. -/
theorem of_update_move {p q r : π} {i : ι}
    (hr : Function.update (Function.update content p none) q (content p) r = some i) :
    ∃ r', content r' = some i := by
  by_cases heq : r = q
  · rw [heq, Function.update_self] at hr
    exact ⟨p, hr⟩
  · rw [Function.update_of_ne heq] at hr
    exact ⟨r, (of_update_none hr).2⟩

theorem Settled.lose (h : Settled content freed) (p : π) :
    Settled (Function.update content p none) freed := by
  refine ⟨fun r r' i hr hr' => ?_, fun r i hr => h.free r i (of_update_none hr).2, h.nodup⟩
  exact h.linear r r' i (of_update_none hr).2 (of_update_none hr').2

/-- A place frees what it has, if anything. -/
theorem Settled.release (h : Settled content freed) (p : π) :
    Settled (Function.update content p none) ((content p).toList ++ freed) := by
  cases hp : content p with
  | none => exact h.lose p
  | some i =>
    refine ⟨(h.lose p).linear, fun r j hr hj => ?_, List.nodup_cons.2 ⟨h.free p i hp, h.nodup⟩⟩
    obtain ⟨hne, hr⟩ := of_update_none hr
    rcases List.mem_cons.1 hj with rfl | hj
    · exact hne (h.linear r p j hr hp)
    · exact h.free r j hr hj

/-- A place receives a thing that is new, or was freed and forgotten. -/
theorem Settled.acquire (h : Settled content freed) (p : π) {i : ι} (hnew : ∀ q, content q ≠ some i)
    (hfree : i ∉ freed) : Settled (Function.update content p (some i)) freed := by
  have hcases : ∀ {r j}, Function.update content p (some i) r = some j →
      r = p ∧ j = i ∨ j ≠ i ∧ content r = some j := by
    intro r j hr
    by_cases hp : r = p
    · rw [hp, Function.update_self] at hr
      exact .inl ⟨hp, (Option.some.inj hr).symm⟩
    · rw [Function.update_of_ne hp] at hr
      refine .inr ⟨fun hj => hnew r ?_, hr⟩
      rw [hr, hj]
  refine ⟨fun r r' j hr hr' => ?_, fun r j hr => ?_, h.nodup⟩
  · rcases hcases hr with ⟨hp, hj⟩ | ⟨hj, hr⟩ <;> rcases hcases hr' with ⟨hp', hj'⟩ | ⟨hj', hr'⟩
    · exact hp.trans hp'.symm
    · exact absurd hj hj'
    · exact absurd hj' hj
    · exact h.linear r r' j hr hr'
  · rcases hcases hr with ⟨_, rfl⟩ | ⟨_, hr⟩
    · exact hfree
    · exact h.free r j hr

omit [DecidableEq π] in
theorem Settled.forget (h : Settled content freed) {freed' : List ι} (hsub : freed'.Sublist freed) :
    Settled content freed' :=
  ⟨h.linear, fun p i hp hi => h.free p i hp (hsub.subset hi), h.nodup.sublist hsub⟩

/-- A place hands over what it has, in place of what the other one had. -/
theorem Settled.move (h : Settled content freed) (p q : π) :
    Settled (Function.update (Function.update content p none) q (content p)) freed := by
  refine ⟨fun r r' i hr hr' => ?_, fun r i hr => ?_, h.nodup⟩
  · by_cases hq : r = q <;> by_cases hq' : r' = q
    · exact hq.trans hq'.symm
    · rw [hq, Function.update_self] at hr
      rw [Function.update_of_ne hq'] at hr'
      obtain ⟨hp, hr'⟩ := of_update_none hr'
      exact absurd (h.linear r' p i hr' hr) hp
    · rw [hq', Function.update_self] at hr'
      rw [Function.update_of_ne hq] at hr
      obtain ⟨hp, hr⟩ := of_update_none hr
      exact absurd (h.linear r p i hr hr') hp
    · rw [Function.update_of_ne hq] at hr
      rw [Function.update_of_ne hq'] at hr'
      exact (h.lose p).linear r r' i hr hr'
  · by_cases hq : r = q
    · rw [hq, Function.update_self] at hr
      exact h.free p i hr
    · rw [Function.update_of_ne hq] at hr
      exact (h.lose p).free r i hr

/-! ### Hand-overs -/

/-- What hand-overs keep, as long as a place drops only what may be dropped. -/
structure Custodial (drops : Option ι → Prop) (Q : (π → Option ι) → List ι → Prop) : Prop where
  empty : drops none
  lose : ∀ {content freed} (p : π), Q content freed → drops (content p) →
    Q (Function.update content p none) freed
  release : ∀ {content freed} (p : π), Q content freed →
    Q (Function.update content p none) ((content p).toList ++ freed)
  move : ∀ {content freed} (p q : π), Q content freed → drops (content q) →
    Q (Function.update (Function.update content p none) q (content p)) freed

/-- Nothing is freed twice, whatever is dropped. -/
theorem settled_custodial : Custodial (fun _ => True) (Settled (π := π) (ι := ι)) where
  empty := trivial
  lose p h _ := h.lose p
  release p h := h.release p
  move p q h _ := h.move p q

/-- The thing has been freed or is in some place. -/
def Kept (i : ι) (content : π → Option ι) (freed : List ι) : Prop := i ∈ freed ∨ ∃ p, content p = some i

/-- A thing that is never dropped is kept. -/
theorem kept_custodial (i : ι) : Custodial (fun x => x ≠ some i) (Kept (π := π) i) where
  empty := nofun
  lose p h hdrop := by
    apply h.imp_right
    intro hat
    obtain ⟨q, hq⟩ := hat
    have hne : q ≠ p := fun heq => hdrop (heq ▸ hq)
    exact ⟨q, by rw [Function.update_of_ne hne]; exact hq⟩
  release p h := by
    rcases h with hfreed | ⟨q, hq⟩
    · exact .inl (List.mem_append_right _ hfreed)
    · by_cases heq : q = p
      · refine .inl (List.mem_append_left _ ?_)
        rw [← heq, hq]
        exact List.mem_singleton_self i
      · exact .inr ⟨q, by rw [Function.update_of_ne heq]; exact hq⟩
  move p q h hdrop := by
    apply h.imp_right
    intro hat
    obtain ⟨r, hr⟩ := hat
    by_cases heq : r = p
    · exact ⟨q, by rw [Function.update_self, ← heq]; exact hr⟩
    · have hne : r ≠ q := fun heq => hdrop (heq ▸ hr)
      exact ⟨r, by rw [Function.update_of_ne hne, Function.update_of_ne heq]; exact hr⟩

end Custody
