import Mathlib.Data.List.Infix

/-!
# Replacement of a pattern

Search for a pattern in a list, and the replacement of all its occurrences, from the left and without overlaps.
A replacement does not look past an element that the pattern does not have, which makes it compose over
concatenation and over codes.
-/

namespace Text

variable {α : Type*} [DecidableEq α] {pat new l : List α}

/-- The first position at which the pattern occurs. -/
def find (pat : List α) : List α → Option Nat
  | [] => if pat = [] then some 0 else none
  | a :: l => if pat <+: a :: l then some 0 else (find pat l).map (· + 1)

/-- What follows a prefix. -/
def stripPrefix (pat l : List α) : Option (List α) := if pat <+: l then some (l.drop pat.length) else none

/-- Replacement after `skip` elements, which belong to an occurrence. -/
def replaceFrom (pat new : List α) : Nat → List α → List α
  | _, [] => []
  | skip + 1, _ :: l => replaceFrom pat new skip l
  | 0, a :: l =>
    if pat <+: a :: l then new ++ replaceFrom pat new (pat.length - 1) l else a :: replaceFrom pat new 0 l

def replace (pat new l : List α) : List α := replaceFrom pat new 0 l

/-! ### Search -/

theorem find_cons_of_isPrefix {a : α} (h : pat <+: a :: l) : find pat (a :: l) = some 0 := if_pos h

theorem find_cons_of_not_isPrefix {a : α} (h : ¬pat <+: a :: l) :
    find pat (a :: l) = (find pat l).map (· + 1) := if_neg h

theorem find_eq_none {l : List α} : find pat l = none ↔ ¬pat <:+: l := by
  induction l with
  | nil =>
    rw [find, List.infix_nil]
    split
    · rename_i hnil
      exact iff_of_false nofun (not_not.2 hnil)
    · rename_i hnil
      exact iff_of_true rfl hnil
  | cons a l ih =>
    rw [List.infix_cons_iff, not_or, ← ih]
    by_cases h : pat <+: a :: l
    · rw [find_cons_of_isPrefix h]
      exact iff_of_false nofun fun hnot => hnot.1 h
    · rw [find_cons_of_not_isPrefix h, Option.map_eq_none_iff]
      exact ⟨fun hnone => ⟨h, hnone⟩, And.right⟩

theorem find_append {a : α} {m : List α} (hm : a ∉ m) (pat' l : List α) :
    find (a :: pat') (m ++ l) = (find (a :: pat') l).map (· + m.length) := by
  induction m with
  | nil =>
    rw [List.nil_append]
    cases find (a :: pat') l <;> rfl
  | cons b m ih =>
    have hne : a ≠ b := fun heq => hm (heq ▸ List.mem_cons_self)
    have hstarts : ¬(a :: pat') <+: b :: (m ++ l) := fun h => hne (List.cons_prefix_cons.1 h).1
    rw [List.cons_append, find_cons_of_not_isPrefix hstarts,
      ih fun hmem => hm (List.mem_cons_of_mem _ hmem), Option.map_map]
    rfl

omit [DecidableEq α] in
/-- No occurrence reaches over an element that the pattern does not have. -/
theorem prefix_of_prefix_append {x : α} {r : List α} (hx : x ∉ pat) (h : pat <+: l ++ x :: r) : pat <+: l := by
  by_cases hlength : pat.length ≤ l.length
  · exact List.prefix_of_prefix_length_le h (List.prefix_append l _) hlength
  · exfalso
    have hstarts : l ++ [x] <+: l ++ x :: r := ⟨r, by rw [List.append_assoc, List.singleton_append]⟩
    have hle : (l ++ [x]).length ≤ pat.length := by
      rw [List.length_append, List.length_singleton]
      omega
    have hmem := (List.prefix_of_prefix_length_le hstarts h hle).subset
    exact hx (hmem (List.mem_append_right l List.mem_cons_self))

theorem find_singleton (a : α) (l : List α) : find [a] l = l.findIdx? fun b => b == a := by
  induction l with
  | nil => rfl
  | cons b l ih =>
    rw [List.findIdx?_cons]
    by_cases hb : b = a
    · subst b
      have hstarts : [a] <+: a :: l := List.prefix_append [a] l
      rw [find_cons_of_isPrefix hstarts, if_pos (beq_self_eq_true a)]
    · have hstarts : ¬[a] <+: b :: l := fun h => hb (List.cons_prefix_cons.1 h).1.symm
      rw [find_cons_of_not_isPrefix hstarts, ih, if_neg (by rwa [beq_iff_eq])]

theorem isPrefix_of_find {i : Nat} (h : find pat l = some i) : pat <+: l.drop i := by
  induction l generalizing i with
  | nil =>
    rw [find] at h
    split at h
    · rename_i hnil
      exact hnil ▸ List.nil_prefix
    · cases h
  | cons a l ih =>
    by_cases hstarts : pat <+: a :: l
    · rw [find_cons_of_isPrefix hstarts] at h
      cases h
      exact hstarts
    · rw [find_cons_of_not_isPrefix hstarts, Option.map_eq_some_iff] at h
      obtain ⟨j, hj, rfl⟩ := h
      exact ih hj

theorem length_le_of_find {i : Nat} (hpat : pat ≠ []) (h : find pat l = some i) :
    i + pat.length ≤ l.length := by
  have hle := (isPrefix_of_find h).length_le
  have hpos := List.length_pos_iff.2 hpat
  rw [List.length_drop] at hle
  omega

theorem find_append_of_eq_some {i : Nat} (hpat : pat ≠ []) (h : find pat l = some i) (r : List α) :
    find pat (l ++ r) = some i := by
  induction l generalizing i with
  | nil =>
    rw [find, if_neg hpat] at h
    cases h
  | cons a l ih =>
    have hlength := length_le_of_find hpat h
    by_cases hstarts : pat <+: a :: l
    · rw [find_cons_of_isPrefix hstarts] at h
      have hlong : pat <+: a :: (l ++ r) := hstarts.trans (List.prefix_append (a :: l) r)
      rw [List.cons_append, find_cons_of_isPrefix hlong]
      exact h
    · have hnot : ¬pat <+: a :: (l ++ r) := fun hlong => hstarts
        (List.prefix_of_prefix_length_le hlong (List.prefix_append (a :: l) r) (by omega))
      rw [find_cons_of_not_isPrefix hstarts, Option.map_eq_some_iff] at h
      obtain ⟨j, hj, rfl⟩ := h
      rw [List.cons_append, find_cons_of_not_isPrefix hnot, ih hj, Option.map_some]

/-- A pattern that is not found before an element that it does not have is found behind it. -/
theorem find_append_cons {x : α} (hx : x ∉ pat) {l : List α} (h : ¬pat <:+: l) (r : List α) :
    find pat (l ++ x :: r) = (find pat r).map (· + (l.length + 1)) := by
  have hnot : ∀ l : List α, ¬pat <:+: l → ¬pat <+: l ++ x :: r := fun l hl hstarts =>
    hl (prefix_of_prefix_append hx hstarts).isInfix
  induction l with
  | nil =>
    rw [List.nil_append, find_cons_of_not_isPrefix (hnot [] h)]
    rfl
  | cons a l ih =>
    have hrest : ¬pat <:+: l := fun hin => h (List.infix_cons hin)
    have hhead : ¬pat <+: a :: (l ++ x :: r) := hnot (a :: l) h
    rw [List.cons_append, find_cons_of_not_isPrefix hhead, ih hrest, Option.map_map]
    rfl

/-- A pattern with a mark at its start alone does not reach over a mark. -/
theorem find_append_of_not_isInfix {a : α} {pat' m : List α} (ha : a ∉ pat') (hm : ¬(a :: pat') <:+: m)
    (l : List α) : find (a :: pat') (m ++ a :: l) = (find (a :: pat') (a :: l)).map (· + m.length) := by
  induction m with
  | nil =>
    rw [List.nil_append]
    cases find (a :: pat') (a :: l) <;> rfl
  | cons b m ih =>
    have hrest : ¬(a :: pat') <:+: m := fun hin => hm (List.infix_cons hin)
    have hnot : ¬(a :: pat') <+: b :: (m ++ a :: l) := by
      intro hstarts
      obtain ⟨heq, htail⟩ := List.cons_prefix_cons.1 hstarts
      have hstart : (a :: pat') <+: b :: m :=
        List.cons_prefix_cons.2 ⟨heq, prefix_of_prefix_append ha htail⟩
      exact hm hstart.isInfix
    rw [List.cons_append, find_cons_of_not_isPrefix hnot, ih hrest, Option.map_map]
    rfl

/-! ### Replacement, step by step -/

theorem replaceFrom_eq (pat new : List α) (skip : Nat) (l : List α) :
    replaceFrom pat new skip l = replace pat new (l.drop skip) := by
  induction l generalizing skip with
  | nil =>
    rw [List.drop_nil]
    cases skip <;> rfl
  | cons a l ih =>
    cases skip with
    | zero => rfl
    | succ skip =>
      rw [replaceFrom, ih]
      rfl

theorem replace_nil : replace pat new [] = [] := rfl

theorem replace_cons_of_isPrefix {a : α} (hpat : pat ≠ []) (h : pat <+: a :: l) :
    replace pat new (a :: l) = new ++ replace pat new ((a :: l).drop pat.length) := by
  obtain ⟨b, pat, rfl⟩ := List.exists_cons_of_ne_nil hpat
  rw [replace, replaceFrom, if_pos h, replaceFrom_eq]
  rfl

theorem replace_cons_of_not_isPrefix {a : α} (h : ¬pat <+: a :: l) :
    replace pat new (a :: l) = a :: replace pat new l := by
  rw [replace, replaceFrom, if_neg h]
  rfl

theorem replace_append_self (hpat : pat ≠ []) (l : List α) :
    replace pat new (pat ++ l) = new ++ replace pat new l := by
  obtain ⟨b, pat', heq⟩ := List.exists_cons_of_ne_nil hpat
  have hstarts : pat <+: b :: (pat' ++ l) := ⟨l, by rw [heq, List.cons_append]⟩
  have hdrop : (b :: (pat' ++ l)).drop pat.length = l := by
    rw [← List.cons_append, ← heq, List.drop_left]
  conv_lhs => rw [heq, List.cons_append, ← heq]
  rw [replace_cons_of_isPrefix hpat hstarts, hdrop]

theorem replace_append_of_not_mem {a : α} {pat' m : List α} (hm : a ∉ m) (l : List α) :
    replace (a :: pat') new (m ++ l) = m ++ replace (a :: pat') new l := by
  induction m with
  | nil => rfl
  | cons b m ih =>
    have hne : a ≠ b := fun heq => hm (heq ▸ List.mem_cons_self)
    have hstarts : ¬(a :: pat') <+: b :: (m ++ l) := fun h => hne (List.cons_prefix_cons.1 h).1
    rw [List.cons_append, replace_cons_of_not_isPrefix hstarts,
      ih fun hmem => hm (List.mem_cons_of_mem _ hmem), List.cons_append]

/-- A code whose words are replaced one by one. -/
theorem replace_flatMap {β : Type*} {e e' : β → List α}
    (h : ∀ b l, replace pat new (e b ++ l) = e' b ++ replace pat new l) (bs : List β) :
    replace pat new (bs.flatMap e) = bs.flatMap e' := by
  induction bs with
  | nil => rfl
  | cons b bs ih => rw [List.flatMap_cons, List.flatMap_cons, h, ih]

/-- **Induction over a replacement**: an element that stays, or an occurrence of the pattern. -/
theorem replace_induction {P : List α → Prop} (hpat : pat ≠ []) (hnil : P [])
    (hcons : ∀ a l, ¬pat <+: a :: l → P l → P (a :: l)) (happend : ∀ l, P l → P (pat ++ l)) (l : List α) :
    P l := by
  induction hn : l.length using Nat.strong_induction_on generalizing l with
  | _ n ih =>
    cases l with
    | nil => exact hnil
    | cons a l =>
      by_cases h : pat <+: a :: l
      · obtain ⟨rest, hrest⟩ := h
        rw [← hrest]
        refine happend rest (ih _ ?_ rest rfl)
        have hlength := congrArg List.length hrest
        have hpos := List.length_pos_iff.2 hpat
        rw [List.length_append] at hlength
        omega
      · refine hcons a l h (ih _ ?_ l rfl)
        rw [← hn, List.length_cons]
        exact Nat.lt_succ_self _

/-! ### Replacement, as a whole -/

omit [DecidableEq α] in
theorem eq_of_concat_prefix {x : α} {w w' : List α} (hw : x ∉ w) (hw' : x ∉ w')
    (h : w ++ [x] <+: w' ++ x :: l) : w = w' := by
  induction w generalizing w' with
  | nil =>
    cases w' with
    | nil => rfl
    | cons a w' =>
      exact absurd (List.cons_prefix_cons.1 h).1 fun heq => hw' (heq ▸ List.mem_cons_self)
  | cons a w ih =>
    cases w' with
    | nil => exact absurd (List.cons_prefix_cons.1 h).1 fun heq => hw (heq ▸ List.mem_cons_self)
    | cons b w' =>
      obtain ⟨rfl, htail⟩ := List.cons_prefix_cons.1 h
      rw [ih (fun hmem => hw (List.mem_cons_of_mem _ hmem)) (fun hmem => hw' (List.mem_cons_of_mem _ hmem))
        htail]

theorem replace_append_cons {x : α} (hpat : pat ≠ []) (hx : x ∉ pat) (l r : List α) :
    replace pat new (l ++ x :: r) = replace pat new l ++ x :: replace pat new r := by
  induction l using replace_induction hpat with
  | hnil =>
    have hnot : ¬pat <+: x :: r := fun h =>
      hpat (List.prefix_nil.1 (prefix_of_prefix_append (l := []) hx h))
    rw [List.nil_append, replace_cons_of_not_isPrefix hnot, replace_nil, List.nil_append]
  | hcons a l h ih =>
    have hnot : ¬pat <+: a :: (l ++ x :: r) := fun hstarts =>
      h (prefix_of_prefix_append (l := a :: l) hx hstarts)
    rw [List.cons_append, replace_cons_of_not_isPrefix hnot, ih, replace_cons_of_not_isPrefix h,
      List.cons_append]
  | happend l ih =>
    rw [List.append_assoc, replace_append_self hpat, ih, replace_append_self hpat, List.append_assoc]

theorem replace_of_not_isInfix (h : ¬pat <:+: l) : replace pat new l = l := by
  induction l with
  | nil => rfl
  | cons a l ih =>
    rw [List.infix_cons_iff, not_or] at h
    rw [replace_cons_of_not_isPrefix h.1, ih h.2]

theorem countP_replace_le {p : α → Bool} (hpat : pat ≠ []) (hlt : new.countP p < pat.countP p)
    (l : List α) : (replace pat new l).countP p ≤ l.countP p := by
  induction l using replace_induction hpat with
  | hnil => exact Nat.le_refl _
  | hcons a l h ih =>
    rw [replace_cons_of_not_isPrefix h, List.countP_cons, List.countP_cons]
    omega
  | happend l ih =>
    rw [replace_append_self hpat, List.countP_append, List.countP_append]
    omega

theorem countP_replace_lt {p : α → Bool} (hpat : pat ≠ []) (hlt : new.countP p < pat.countP p)
    (h : pat <:+: l) : (replace pat new l).countP p < l.countP p := by
  induction l using replace_induction hpat with
  | hnil => exact absurd (List.infix_nil.1 h) hpat
  | hcons a l hnot ih =>
    have hrest := (List.infix_cons_iff.1 h).resolve_left hnot
    have := ih hrest
    rw [replace_cons_of_not_isPrefix hnot, List.countP_cons, List.countP_cons]
    omega
  | happend l _ =>
    have := countP_replace_le hpat hlt l
    rw [replace_append_self hpat, List.countP_append, List.countP_append]
    omega

end Text
