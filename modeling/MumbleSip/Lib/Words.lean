import Mathlib.Data.List.Basic
import Mathlib.Data.List.TakeWhile

/-!
# Words

A list cut into words at the elements that separate, and words joined with one separator between two. Joining
the words of a list is the list with each run of separators squeezed and both ends trimmed.
-/

namespace Text

variable {α : Type*} {p : α → Bool} {a b sep : α} {l m : List α} {ws vs : List (List α)}

/-- The pieces between separators that are not empty. -/
def words (p : α → Bool) (l : List α) : List (List α) := (l.splitOnP p).filter fun w => !w.isEmpty

def join (sep : α) (ws : List (List α)) : List α := [sep].intercalate ws

/-- Without the elements at both ends for which `p` holds. -/
def trim (p : α → Bool) (l : List α) : List α := ((l.dropWhile p).reverse.dropWhile p).reverse

/-- Each run of separators replaced by one `sep`; `inRun` inside a run. -/
def squeeze (p : α → Bool) (sep : α) : Bool → List α → List α
  | _, [] => []
  | inRun, a :: l =>
    if p a then if inRun then squeeze p sep true l else sep :: squeeze p sep true l
    else a :: squeeze p sep false l

/-- Not empty, and without a separator. -/
def IsWord (p : α → Bool) (w : List α) : Prop := w ≠ [] ∧ ∀ a ∈ w, p a = false

/-! ### Cutting -/

theorem words_nil : words p [] = [] := rfl

theorem words_cons_sep (ha : p a = true) : words p (a :: l) = words p l := by
  rw [words, List.splitOnP_cons_eq_if_modifyHead, if_pos ha]
  rfl

theorem words_cons_cons (ha : p a = false) (hb : p b = false) :
    words p (a :: b :: l) = (words p (b :: l)).modifyHead (List.cons a) := by
  have ha : ¬p a = true := by rw [ha]; decide
  have hb : ¬p b = true := by rw [hb]; decide
  obtain ⟨w, ws, hsplit⟩ := List.exists_cons_of_ne_nil (List.splitOnP_ne_nil p l)
  rw [words, words, List.splitOnP_cons_eq_if_modifyHead, if_neg ha,
    List.splitOnP_cons_eq_if_modifyHead, if_neg hb, hsplit]
  rfl

theorem words_append_cons (hsep : p sep = true) (l m : List α) :
    words p (l ++ sep :: m) = words p l ++ words p m := by
  rw [words, List.splitOnP_append_cons l m hsep, List.filter_append]
  rfl

theorem words_of_isWord {w : List α} (hw : IsWord p w) : words p w = [w] := by
  rw [words, List.splitOnP_eq_singleton hw.2]
  obtain ⟨a, l, rfl⟩ := List.exists_cons_of_ne_nil hw.1
  rfl

theorem words_singleton (ha : p a = false) : words p [a] = [[a]] :=
  words_of_isWord ⟨List.cons_ne_nil _ _, fun _ hb => List.mem_singleton.1 hb ▸ ha⟩

/-- **Induction over the words of a list**: a separator, the last element of a word, or an element before the
last. -/
theorem words_induction {P : List α → Prop} (hnil : P []) (hsep : ∀ a l, p a = true → P l → P (a :: l))
    (hsingle : ∀ a, p a = false → P [a])
    (hlast : ∀ a b l, p a = false → p b = true → P l → P (a :: b :: l))
    (hcons : ∀ a b l, p a = false → p b = false → P (b :: l) → P (a :: b :: l)) : ∀ l, P l
  | [] => hnil
  | [a] => by
    cases ha : p a with
    | true => exact hsep a [] ha hnil
    | false => exact hsingle a ha
  | a :: b :: l => by
    have hrest := words_induction hnil hsep hsingle hlast hcons (b :: l)
    cases ha : p a with
    | true => exact hsep a _ ha hrest
    | false =>
      cases hb : p b with
      | true => exact hlast a b l ha hb (words_induction hnil hsep hsingle hlast hcons l)
      | false => exact hcons a b l ha hb hrest

theorem words_cons_ne_nil (ha : p a = false) : words p (a :: l) ≠ [] := by
  have ha : ¬p a = true := by rw [ha]; decide
  obtain ⟨w, ws, hsplit⟩ := List.exists_cons_of_ne_nil (List.splitOnP_ne_nil p l)
  rw [words, List.splitOnP_cons_eq_if_modifyHead, if_neg ha, hsplit]
  exact List.cons_ne_nil _ _

theorem isWord_of_mem_words {w : List α} (hw : w ∈ words p l) : IsWord p w := by
  induction l using words_induction (p := p) generalizing w with
  | hnil => cases hw
  | hsep a l ha ih =>
    rw [words_cons_sep ha] at hw
    exact ih hw
  | hsingle a ha =>
    rw [words_singleton ha, List.mem_singleton] at hw
    subst w
    exact ⟨List.cons_ne_nil _ _, fun b hb => List.mem_singleton.1 hb ▸ ha⟩
  | hlast a b l ha hb ih =>
    rw [show a :: b :: l = [a] ++ b :: l from rfl, words_append_cons hb, words_singleton ha,
      List.singleton_append, List.mem_cons] at hw
    rcases hw with rfl | hw
    · exact ⟨List.cons_ne_nil _ _, fun c hc => List.mem_singleton.1 hc ▸ ha⟩
    · exact ih hw
  | hcons a b l ha hb ih =>
    rw [words_cons_cons ha hb] at hw
    obtain ⟨w', ws, hwords⟩ := List.exists_cons_of_ne_nil (words_cons_ne_nil (l := l) hb)
    rw [hwords, List.modifyHead_cons, List.mem_cons] at hw
    rw [hwords] at ih
    rcases hw with rfl | hw
    · refine ⟨List.cons_ne_nil _ _, fun c hc => ?_⟩
      rcases List.mem_cons.1 hc with rfl | hc
      · exact ha
      · exact (ih List.mem_cons_self).2 c hc
    · exact ih (List.mem_cons_of_mem _ hw)

theorem flatten_words (p : α → Bool) (l : List α) : (words p l).flatten = l.filter fun a => !p a := by
  rw [words, List.flatten_filter_not_isEmpty]
  induction l with
  | nil => rfl
  | cons a l ih =>
    obtain ⟨w, ws, hsplit⟩ := List.exists_cons_of_ne_nil (List.splitOnP_ne_nil p l)
    rw [List.splitOnP_cons_eq_if_modifyHead]
    rw [hsplit] at ih ⊢
    cases ha : p a with
    | true => simpa [ha] using ih
    | false => simpa [ha] using ih

/-! ### Joining -/

theorem join_nil : join sep [] = [] := rfl

theorem join_singleton (w : List α) : join sep [w] = w := List.intercalate_singleton

theorem join_cons (w : List α) (h : ws ≠ []) :
    join sep (w :: ws) = w ++ sep :: join sep ws := by
  rw [join, List.intercalate_cons_of_ne_nil h, List.append_assoc]
  rfl

theorem join_modifyHead (h : ws ≠ []) (l : List α) :
    join sep (ws.modifyHead (l ++ ·)) = l ++ join sep ws := by
  obtain ⟨w, ws, rfl⟩ := List.exists_cons_of_ne_nil h
  rw [List.modifyHead_cons]
  cases ws with
  | nil => rw [join_singleton, join_singleton]
  | cons w' ws =>
    rw [join_cons _ (List.cons_ne_nil _ _), join_cons _ (List.cons_ne_nil _ _), List.append_assoc]

theorem join_append (hws : ws ≠ []) (hvs : vs ≠ []) :
    join sep (ws ++ vs) = join sep ws ++ sep :: join sep vs := by
  induction ws with
  | nil => exact absurd rfl hws
  | cons w ws ih =>
    cases ws with
    | nil => rw [List.singleton_append, join_cons w hvs, join_singleton]
    | cons w' ws =>
      have hrest : w' :: ws ++ vs ≠ [] := List.append_ne_nil_of_left_ne_nil (List.cons_ne_nil _ _) _
      rw [List.cons_append, join_cons w hrest, ih (List.cons_ne_nil _ _), join_cons w (List.cons_ne_nil _ _),
        List.append_assoc]
      rfl

theorem join_isInfix (h : ws <:+: vs) : join sep ws <:+: join sep vs := by
  obtain ⟨before, after, rfl⟩ := h
  by_cases hws : ws = []
  · subst ws
    exact List.nil_infix
  have hleft : join sep ws <:+: join sep (before ++ ws) := by
    by_cases hbefore : before = []
    · rw [hbefore]
      exact List.infix_rfl
    · rw [join_append hbefore hws]
      exact ⟨join sep before ++ [sep], [], by simp⟩
  by_cases hafter : after = []
  · rw [hafter, List.append_nil]
    exact hleft
  · rw [join_append (List.append_ne_nil_of_right_ne_nil _ hws) hafter]
    exact hleft.trans (List.prefix_append _ _).isInfix

theorem exists_append_join (sep : α) (hws : ∀ w ∈ ws, IsWord p w) (hm : ∀ a ∈ m, p a = false) :
    ∃ vs, (∀ v ∈ vs, IsWord p v) ∧ m ++ join sep ws = join sep vs := by
  cases ws with
  | nil =>
    by_cases hnil : m = []
    · exact ⟨[], nofun, by rw [hnil]; rfl⟩
    · refine ⟨[m], fun v hv => ?_, by rw [join_nil, List.append_nil, join_singleton]⟩
      rw [List.mem_singleton.1 hv]
      exact ⟨hnil, hm⟩
  | cons w ws =>
    obtain ⟨hw, hrest⟩ := List.forall_mem_cons.1 hws
    refine ⟨(m ++ w) :: ws, List.forall_mem_cons.2 ⟨⟨?_, ?_⟩, hrest⟩, ?_⟩
    · exact List.append_ne_nil_of_right_ne_nil _ hw.1
    · intro a ha
      exact (List.mem_append.1 ha).elim (hm a) (hw.2 a)
    · exact (join_modifyHead (List.cons_ne_nil w ws) m).symm

theorem exists_join_append (sep : α) (hws : ∀ w ∈ ws, IsWord p w) (hm : ∀ a ∈ m, p a = false) :
    ∃ vs, (∀ v ∈ vs, IsWord p v) ∧ join sep ws ++ m = join sep vs := by
  rcases List.eq_nil_or_concat' ws with rfl | ⟨ws, w, rfl⟩
  · obtain ⟨vs, hvs, heq⟩ := exists_append_join sep (List.forall_mem_nil _) hm
    rw [join_nil, List.append_nil] at heq
    exact ⟨vs, hvs, heq⟩
  · have hw := hws w (List.mem_append_right _ List.mem_cons_self)
    refine ⟨ws ++ [w ++ m], fun v hv => ?_, ?_⟩
    · rcases List.mem_append.1 hv with hv | hv
      · exact hws v (List.mem_append_left _ hv)
      · rw [List.mem_singleton.1 hv]
        refine ⟨List.append_ne_nil_of_left_ne_nil hw.1 _, fun a ha => ?_⟩
        exact (List.mem_append.1 ha).elim (hw.2 a) (hm a)
    · by_cases hnil : ws = []
      · rw [hnil, List.nil_append, List.nil_append, join_singleton, join_singleton]
      · rw [join_append hnil (List.cons_ne_nil _ _), join_append hnil (List.cons_ne_nil _ _), join_singleton,
          join_singleton, List.append_assoc, List.cons_append]

theorem words_join_flatMap (hsep : p sep = true) (ls : List (List α)) :
    words p (join sep ls) = ls.flatMap (words p) := by
  induction ls with
  | nil => rfl
  | cons l ls ih =>
    cases ls with
    | nil => rw [join_singleton, List.flatMap_singleton]
    | cons l' ls =>
      rw [List.flatMap_cons, ← ih, join_cons l (List.cons_ne_nil _ _), words_append_cons hsep]

theorem words_join (hsep : p sep = true) (hws : ∀ w ∈ ws, IsWord p w) : words p (join sep ws) = ws := by
  rw [words_join_flatMap hsep]
  induction ws with
  | nil => rfl
  | cons w ws ih =>
    obtain ⟨hw, hrest⟩ := List.forall_mem_cons.1 hws
    rw [List.flatMap_cons, words_of_isWord hw, ih hrest, List.singleton_append]

/-- The pieces occur one behind the other. -/
def ContainsInOrder : List (List α) → List α → Prop
  | [], _ => True
  | m :: ms, l => ∃ before rest, l = before ++ (m ++ rest) ∧ ContainsInOrder ms rest

theorem ContainsInOrder.append_left {ms : List (List α)} (h : ContainsInOrder ms l) (before : List α) :
    ContainsInOrder ms (before ++ l) := by
  cases ms with
  | nil => trivial
  | cons m ms =>
    obtain ⟨before', rest, rfl, hrest⟩ := h
    exact ⟨before ++ before', rest, (List.append_assoc _ _ _).symm, hrest⟩

/-- Words that are joined at once hold what is joined of some of them after the other. -/
theorem containsInOrder_join (sep : α) (wss : List (List (List α))) :
    ContainsInOrder (wss.map (join sep)) (join sep wss.flatten) := by
  induction wss with
  | nil => trivial
  | cons ws wss ih =>
    rw [List.map_cons, List.flatten_cons]
    by_cases hws : ws = []
    · subst hws
      exact ⟨[], join sep wss.flatten, rfl, ih⟩
    · by_cases hrest : wss.flatten = []
      · rw [hrest] at ih ⊢
        exact ⟨[], [], by rw [List.append_nil, List.append_nil, List.nil_append], ih⟩
      · rw [join_append hws hrest]
        exact ⟨[], sep :: join sep wss.flatten, rfl, ih.append_left [sep]⟩

/-! ### Pieces -/

theorem head?_splitOnP_append (hm : ∀ a ∈ m, p a = false)
    (hl : l = [] ∨ ∃ a rest, l = a :: rest ∧ p a = true) : ((m ++ l).splitOnP p).head? = some m := by
  rcases hl with rfl | ⟨a, rest, rfl, ha⟩
  · rw [List.append_nil, List.splitOnP_eq_singleton hm]
    rfl
  · rw [List.splitOnP_append_cons_of_forall_mem hm a ha]
    rfl

theorem splitOnP_map {β : Type*} (f : β → α) (l : List β) :
    (l.map f).splitOnP p = (l.splitOnP fun b => p (f b)).map (List.map f) := by
  induction l with
  | nil => rfl
  | cons b l ih =>
    obtain ⟨w, ws, hsplit⟩ := List.exists_cons_of_ne_nil (List.splitOnP_ne_nil (fun b => p (f b)) l)
    rw [List.map_cons, List.splitOnP_cons_eq_if_modifyHead, List.splitOnP_cons_eq_if_modifyHead, ih, hsplit]
    split
    · rfl
    · rfl

/-! ### Squeezing and trimming -/

theorem trim_map {β : Type*} (f : β → α) (l : List β) :
    trim p (l.map f) = (trim (fun b => p (f b)) l).map f := by
  rw [trim, List.dropWhile_map, ← List.map_reverse, List.dropWhile_map, ← List.map_reverse]
  rfl

theorem trim_eq_self (hhead : ∀ a, l.head? = some a → p a = false)
    (hlast : ∀ a, l.getLast? = some a → p a = false) : trim p l = l := by
  cases hl : l with
  | nil => rfl
  | cons a l' =>
    have hfront : (a :: l').dropWhile p = a :: l' := by
      apply List.dropWhile_cons_of_neg
      rw [hhead a (hl ▸ rfl)]
      exact Bool.false_ne_true
    have hback : (a :: l').reverse.dropWhile p = (a :: l').reverse := by
      cases hr : (a :: l').reverse with
      | nil => rfl
      | cons b r =>
        apply List.dropWhile_cons_of_neg
        have hb : l.getLast? = some b := by
          rw [hl, List.getLast?_eq_head?_reverse, hr]
          rfl
        rw [hlast b hb]
        exact Bool.false_ne_true
    rw [trim, hfront, hback, List.reverse_reverse]

theorem trim_eq_nil : trim p l = [] ↔ ∀ a ∈ l, p a = true := by
  rw [← List.dropWhile_eq_nil_iff, trim, List.reverse_eq_nil_iff]
  constructor
  · intro hrest
    by_contra hne
    have hhead := List.dropWhile_eq_nil_iff.1 hrest _ (List.mem_reverse.2 (List.head_mem hne))
    rw [List.head_dropWhile_not p hne] at hhead
    cases hhead
  · intro hnil
    rw [hnil]
    rfl

theorem squeeze_cons_sep (ha : p a = true) (l : List α) :
    squeeze p sep false (a :: l) = sep :: squeeze p sep true l := by
  rw [squeeze, if_pos ha]
  rfl

theorem squeeze_cons (ha : p a = false) (inRun : Bool) (l : List α) :
    squeeze p sep inRun (a :: l) = a :: squeeze p sep false l := by
  rw [squeeze, ha]
  rfl

/-- Inside a run, what follows is the words joined, and one separator more if they are not at the end. -/
theorem squeeze_true (sep : α) (l : List α) : squeeze p sep true l = join sep (words p l) ∨
    words p l ≠ [] ∧ squeeze p sep true l = join sep (words p l) ++ [sep] := by
  induction l using words_induction (p := p) with
  | hnil => exact .inl rfl
  | hsep a l ha ih =>
    rw [words_cons_sep ha, squeeze, if_pos ha]
    exact ih
  | hsingle a ha =>
    rw [squeeze_cons ha, words_singleton ha]
    exact .inl rfl
  | hlast a b l ha hb ih =>
    rw [squeeze_cons ha, squeeze_cons_sep hb, show a :: b :: l = [a] ++ b :: l from rfl,
      words_append_cons hb, words_singleton ha, List.singleton_append]
    by_cases hwords : words p l = []
    · right
      have hsqueeze := ih.resolve_right fun h => h.1 hwords
      rw [hsqueeze, hwords]
      exact ⟨List.cons_ne_nil _ _, rfl⟩
    · rw [join_cons _ hwords]
      rcases ih with hsqueeze | ⟨_, hsqueeze⟩
      · exact .inl (by rw [hsqueeze]; rfl)
      · exact .inr ⟨List.cons_ne_nil _ _, by rw [hsqueeze]; rfl⟩
  | hcons a b l ha hb ih =>
    have hwords := words_cons_ne_nil (l := l) hb
    have hhead : join sep (words p (a :: b :: l)) = a :: join sep (words p (b :: l)) := by
      rw [words_cons_cons ha hb]
      exact join_modifyHead hwords [a]
    rw [squeeze_cons hb] at ih
    rw [squeeze_cons ha, squeeze_cons hb, hhead]
    rcases ih with hsqueeze | ⟨_, hsqueeze⟩
    · exact .inl (by rw [hsqueeze])
    · exact .inr ⟨words_cons_ne_nil ha, by rw [hsqueeze]; rfl⟩

theorem dropWhile_join (hws : ∀ w ∈ ws, IsWord p w) (m : List α) (hne : ws ≠ []) :
    (join sep ws ++ m).dropWhile p = join sep ws ++ m := by
  obtain ⟨w, ws, rfl⟩ := List.exists_cons_of_ne_nil hne
  obtain ⟨hw, hword⟩ := hws w List.mem_cons_self
  obtain ⟨a, w, rfl⟩ := List.exists_cons_of_ne_nil hw
  have ha : ¬p a = true := by rw [hword a List.mem_cons_self]; decide
  have hjoin : ∃ l, join sep ((a :: w) :: ws) = a :: l := by
    cases ws with
    | nil => exact ⟨w, join_singleton _⟩
    | cons w' ws => exact ⟨_, join_cons _ (List.cons_ne_nil _ _)⟩
  obtain ⟨l, hl⟩ := hjoin
  rw [hl, List.cons_append, List.dropWhile_cons_of_neg ha]

theorem join_concat (sep : α) (ws : List (List α)) (w : List α) : ∃ l, join sep (ws ++ [w]) = l ++ w := by
  induction ws with
  | nil => exact ⟨[], join_singleton w⟩
  | cons w' ws ih =>
    obtain ⟨l, hl⟩ := ih
    refine ⟨w' ++ sep :: l, ?_⟩
    rw [List.cons_append, join_cons _ (List.append_ne_nil_of_right_ne_nil _ (List.cons_ne_nil _ _)), hl,
      List.append_assoc]
    rfl

theorem dropWhile_reverse_join (hws : ∀ w ∈ ws, IsWord p w) :
    (join sep ws).reverse.dropWhile p = (join sep ws).reverse := by
  rcases List.eq_nil_or_concat' ws with rfl | ⟨ws', w, rfl⟩
  · rfl
  · obtain ⟨l, hl⟩ := join_concat sep ws' w
    obtain ⟨hw, hword⟩ := hws w (List.mem_append_right _ List.mem_cons_self)
    rcases List.eq_nil_or_concat' w with rfl | ⟨w', a, rfl⟩
    · exact absurd rfl hw
    · have ha : ¬p a = true := by
        rw [hword a (List.mem_append_right _ List.mem_cons_self)]
        decide
      rw [hl, List.reverse_append, List.reverse_append, List.reverse_singleton, List.singleton_append,
        List.cons_append, List.dropWhile_cons_of_neg ha]

theorem trim_join (hsep : p sep = true) (hws : ∀ w ∈ ws, IsWord p w) (m : List α)
    (hm : m = [] ∨ m = [sep]) : trim p (join sep ws ++ m) = join sep ws := by
  by_cases hne : ws = []
  · subst ws
    rcases hm with rfl | rfl
    · rfl
    · rw [join_nil, List.nil_append, trim, List.dropWhile_cons_of_pos hsep]
      rfl
  · rw [trim, dropWhile_join hws m hne]
    rcases hm with rfl | rfl
    · rw [List.append_nil, dropWhile_reverse_join hws, List.reverse_reverse]
    · rw [List.reverse_append, List.reverse_singleton, List.singleton_append,
        List.dropWhile_cons_of_pos hsep, dropWhile_reverse_join hws, List.reverse_reverse]

/-- **The words joined** are the list with each run of separators squeezed and both ends trimmed. -/
theorem trim_squeeze (hsep : p sep = true) (l : List α) :
    trim p (squeeze p sep false l) = join sep (words p l) := by
  have hwords : ∀ w ∈ words p l, IsWord p w := fun w hw => isWord_of_mem_words hw
  have htrue : trim p (squeeze p sep true l) = join sep (words p l) := by
    rcases squeeze_true (p := p) sep l with heq | ⟨_, heq⟩
    · have htrim := trim_join hsep hwords [] (.inl rfl)
      rw [List.append_nil] at htrim
      rw [heq, htrim]
    · rw [heq, trim_join hsep hwords [sep] (.inr rfl)]
  cases l with
  | nil => rfl
  | cons a l =>
    cases ha : p a with
    | true =>
      have hrun : squeeze p sep true (a :: l) = squeeze p sep true l := by rw [squeeze, if_pos ha]; rfl
      rw [squeeze_cons_sep ha, trim, List.dropWhile_cons_of_pos hsep, ← hrun]
      exact htrue
    | false =>
      rw [squeeze_cons ha] at htrue ⊢
      exact htrue

end Text
