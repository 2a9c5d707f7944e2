import MumbleSip.Audio.Verbatim

/-!
# The turns of the anchor loop

Each turn of the loop over a message copies the text up to an anchor, and replaces the anchor. What all turns
add to the output is kept apart here, so that it can be told what has been copied.
-/

namespace MumbleSip

open Text

/-! ### A turn -/

/-- What the loop adds to the output: a character of the input, or what replaces an anchor. -/
inductive Pushed
  | copied (c : Char)
  | replacement (text : List Char)

def Pushed.out : Pushed → List Char
  | .copied c => [c]
  | .replacement text => ' ' :: text ++ [' ']

structure AnchorTurn where
  before : List Char
  replacement : List Char
  rest : List Char
  deriving DecidableEq

/-- A turn of the loop of `replace_html_anchor_tags`, unless it is the last. -/
def anchorTurn (input : List Char) : Option AnchorTurn := do
  let anchorStart ← findAsciiCaseInsensitive input "<a".toList
  let anchor := input.drop anchorStart
  let openTagEnd ← find ['>'] anchor
  let inner := anchor.drop (openTagEnd + 1)
  let closeTag ← findAsciiCaseInsensitive inner "</a>".toList
  let replacement := (parseAnchorHref (anchor.take (openTagEnd + 1))).getD (inner.take closeTag)
  some ⟨input.take anchorStart, replacement, inner.drop (closeTag + "</a>".toList.length)⟩

variable {input l : List Char} {turn : AnchorTurn}

theorem anchorTurn_eq_some (hturn : anchorTurn input = some turn) :
    ∃ anchorStart openTagEnd closeTag, findAsciiCaseInsensitive input "<a".toList = some anchorStart ∧
      find ['>'] (input.drop anchorStart) = some openTagEnd ∧
      findAsciiCaseInsensitive ((input.drop anchorStart).drop (openTagEnd + 1)) "</a>".toList = some closeTag ∧
      turn = ⟨input.take anchorStart,
        (parseAnchorHref ((input.drop anchorStart).take (openTagEnd + 1))).getD
          (((input.drop anchorStart).drop (openTagEnd + 1)).take closeTag),
        ((input.drop anchorStart).drop (openTagEnd + 1)).drop (closeTag + "</a>".toList.length)⟩ := by
  simp only [anchorTurn, Option.bind_eq_bind, Option.bind_eq_some_iff, Option.some.injEq] at hturn
  obtain ⟨anchorStart, hstart, openTagEnd, hend, closeTag, hclose, heq⟩ := hturn
  exact ⟨anchorStart, openTagEnd, closeTag, hstart, hend, hclose, heq.symm⟩

theorem length_rest_lt (hturn : anchorTurn input = some turn) : turn.rest.length < input.length := by
  obtain ⟨anchorStart, openTagEnd, closeTag, hstart, _, _, rfl⟩ := anchorTurn_eq_some hturn
  have hpos : 0 < input.length := by
    rw [List.length_pos_iff]
    rintro rfl
    cases hstart
  simp only [List.length_drop]
  omega

/-- What the loop adds to the output in all its turns. -/
def pushes (input : List Char) : List Pushed :=
  match hturn : anchorTurn input with
  | none => input.map .copied
  | some turn => turn.before.map .copied ++ .replacement turn.replacement :: pushes turn.rest
termination_by input.length
decreasing_by exact length_rest_lt hturn

theorem pushes_of_none (hturn : anchorTurn input = none) : pushes input = input.map .copied := by
  rw [pushes]
  split
  · rfl
  · rename_i turn hsome
    rw [hturn] at hsome
    cases hsome

theorem pushes_of_some (hturn : anchorTurn input = some turn) :
    pushes input = turn.before.map .copied ++ .replacement turn.replacement :: pushes turn.rest := by
  rw [pushes]
  split
  · rename_i hnone
    rw [hturn] at hnone
    cases hnone
  · rename_i turn' hsome
    rw [hturn] at hsome
    cases hsome
    rfl

theorem out_copied (s : List Char) : (s.map Pushed.copied).flatMap Pushed.out = s := by
  induction s with
  | nil => rfl
  | cons c s ih =>
    rw [List.map_cons, List.flatMap_cons, ih]
    rfl

theorem replaceHtmlAnchorTags_of_none (hturn : anchorTurn input = none) : replaceHtmlAnchorTags input = input := by
  rw [replaceHtmlAnchorTags]
  split
  · rename_i hnil
    exact hnil.symm
  · simp only [anchorTurn, Option.bind_eq_bind, Option.bind_eq_none_iff] at hturn
    cases hstart : findAsciiCaseInsensitive input "<a".toList with
    | none => rfl
    | some anchorStart =>
      have hanchor := hturn anchorStart hstart
      simp only
      cases hend : find ['>'] (input.drop anchorStart) with
      | none => exact List.take_append_drop anchorStart input
      | some openTagEnd =>
        have hinner := hanchor openTagEnd hend
        cases hclose : findAsciiCaseInsensitive ((input.drop anchorStart).drop (openTagEnd + 1))
            "</a>".toList with
        | none =>
          simp only [hclose]
          exact List.take_append_drop anchorStart input
        | some closeTag => cases hinner closeTag hclose

theorem replaceHtmlAnchorTags_of_some (hturn : anchorTurn input = some turn) :
    replaceHtmlAnchorTags input = turn.before ++
      (' ' :: turn.replacement ++ ' ' :: replaceHtmlAnchorTags turn.rest) := by
  obtain ⟨anchorStart, openTagEnd, closeTag, hstart, hend, hclose, rfl⟩ := anchorTurn_eq_some hturn
  have hne : input ≠ [] := by
    rintro rfl
    cases hstart
  rw [replaceHtmlAnchorTags, if_neg hne, hstart]
  simp only [hend, hclose]

theorem replaceHtmlAnchorTags_eq_pushes (input : List Char) :
    replaceHtmlAnchorTags input = (pushes input).flatMap Pushed.out := by
  induction hn : input.length using Nat.strong_induction_on generalizing input with
  | _ n ih =>
    cases hturn : anchorTurn input with
    | none => rw [replaceHtmlAnchorTags_of_none hturn, pushes_of_none hturn, out_copied]
    | some turn =>
      have hrest := ih turn.rest.length (hn ▸ length_rest_lt hturn) turn.rest rfl
      rw [replaceHtmlAnchorTags_of_some hturn, pushes_of_some hturn, List.flatMap_append, List.flatMap_cons,
        out_copied, hrest]
      simp only [Pushed.out, List.cons_append, List.append_assoc, List.nil_append]

/-! ### What a turn consumes -/

theorem findAsciiCaseInsensitive_eq_none {needle : List Char} :
    findAsciiCaseInsensitive l needle = none ↔ ¬toAsciiLowercase needle <:+: toAsciiLowercase l := find_eq_none

theorem toAsciiLowercase_startTag : toAsciiLowercase "<a".toList = "<a".toList := by decide

theorem toAsciiLowercase_endTag : toAsciiLowercase "</a>".toList = "</a>".toList := by decide

theorem anchorTurn_append {s : List Char} (hfind : findAsciiCaseInsensitive (s ++ l) "<a".toList =
    (findAsciiCaseInsensitive l "<a".toList).map (· + s.length)) :
    anchorTurn (s ++ l) = (anchorTurn l).map fun turn => { turn with before := s ++ turn.before } := by
  simp only [anchorTurn, hfind, Option.bind_eq_bind, Option.bind_map, Option.map_bind]
  congr 1
  funext anchorStart
  have hdrop : (s ++ l).drop (anchorStart + s.length) = l.drop anchorStart := by
    rw [Nat.add_comm, List.drop_length_add_append]
  have htake : (s ++ l).take (anchorStart + s.length) = s ++ l.take anchorStart := by
    rw [Nat.add_comm, List.take_length_add_append]
  simp only [Function.comp_apply, hdrop, htake, Option.map_bind]
  rfl

theorem pushes_append {s : List Char} (hfind : findAsciiCaseInsensitive (s ++ l) "<a".toList =
    (findAsciiCaseInsensitive l "<a".toList).map (· + s.length)) :
    pushes (s ++ l) = s.map .copied ++ pushes l := by
  have happend := anchorTurn_append hfind
  cases hturn : anchorTurn l with
  | none =>
    rw [hturn, Option.map_none] at happend
    rw [pushes_of_none happend, pushes_of_none hturn, List.map_append]
  | some turn =>
    rw [hturn, Option.map_some] at happend
    rw [pushes_of_some happend, pushes_of_some hturn, List.map_append, List.append_assoc]

theorem pushes_text {s : List Char} (hs : '<' ∉ s) (l : List Char) :
    pushes (s ++ l) = s.map .copied ++ pushes l := by
  have hnot := not_mem_toAsciiLowercase hs
  apply pushes_append
  rw [findAsciiCaseInsensitive, toAsciiLowercase_append,
    show toAsciiLowercase "<a".toList = '<' :: ['a'] by decide, find_append hnot,
    length_toAsciiLowercase, findAsciiCaseInsensitive,
    show toAsciiLowercase "<a".toList = '<' :: ['a'] by decide]

theorem findAsciiCaseInsensitive_append {s : List Char} (hs : '<' ∉ s) (needle l : List Char) :
    findAsciiCaseInsensitive (s ++ ('<' :: needle ++ l)) ('<' :: needle) = some s.length := by
  have hstarts : find (toAsciiLowercase ('<' :: needle)) (toAsciiLowercase ('<' :: needle ++ l)) = some 0 := by
    apply find_cons_of_isPrefix
    exact ⟨toAsciiLowercase l, List.map_append.symm⟩
  have happend := find_append (not_mem_toAsciiLowercase hs) (toAsciiLowercase needle)
    (toAsciiLowercase ('<' :: needle ++ l))
  unfold findAsciiCaseInsensitive
  rw [show toAsciiLowercase (s ++ ('<' :: needle ++ l))
      = toAsciiLowercase s ++ toAsciiLowercase ('<' :: needle ++ l) from List.map_append]
  refine happend.trans ?_
  rw [show '<' :: toAsciiLowercase needle = toAsciiLowercase ('<' :: needle) from rfl, hstarts,
    Option.map_some, Nat.zero_add, toAsciiLowercase, List.length_map]

theorem anchorTurn_openTag {openTag attributes inner : List Char}
    (hopen : openTag = "<a".toList ++ attributes ++ ['>']) (hattributes : '>' ∉ attributes)
    (hinner : ¬"</a>".toList <:+: toAsciiLowercase inner) (l : List Char) :
    anchorTurn (openTag ++ (inner ++ ("</a>".toList ++ l)))
      = some ⟨[], (parseAnchorHref openTag).getD inner, l⟩ := by
  have hstart : findAsciiCaseInsensitive (openTag ++ (inner ++ ("</a>".toList ++ l))) "<a".toList = some 0 := by
    rw [hopen, List.append_assoc, List.append_assoc]
    exact findAsciiCaseInsensitive_append (s := []) List.not_mem_nil ['a'] _
  have hlength : openTag.length = ("<a".toList ++ attributes).length + 1 := by
    rw [hopen, List.length_append, List.length_singleton]
  have hend : find ['>'] (openTag ++ (inner ++ ("</a>".toList ++ l)))
      = some ("<a".toList ++ attributes).length := by
    have hnot : '>' ∉ "<a".toList ++ attributes := by
      rw [List.mem_append, not_or]
      exact ⟨by decide, hattributes⟩
    have hfind : find ['>'] (['>'] ++ (inner ++ ("</a>".toList ++ l))) = some 0 :=
      find_cons_of_isPrefix (List.prefix_append ['>'] _)
    rw [hopen, List.append_assoc, find_append hnot, hfind, Option.map_some, Nat.zero_add]
  have hclose : findAsciiCaseInsensitive (inner ++ ("</a>".toList ++ l)) "</a>".toList
      = some inner.length := by
    have htag : "</a>".toList = '<' :: "/a>".toList := by decide
    have hfind : find ('<' :: "/a>".toList) ('<' :: ("/a>".toList ++ toAsciiLowercase l)) = some 0 :=
      find_cons_of_isPrefix ⟨toAsciiLowercase l, rfl⟩
    rw [htag] at hinner
    rw [findAsciiCaseInsensitive, toAsciiLowercase_append, toAsciiLowercase_append, toAsciiLowercase_endTag, htag,
      List.cons_append, find_append_of_not_isInfix (by decide) hinner, hfind, Option.map_some,
      Nat.zero_add, length_toAsciiLowercase]
  have hrest : (inner ++ ("</a>".toList ++ l)).drop (inner.length + "</a>".toList.length) = l := by
    rw [← List.append_assoc, ← List.length_append, List.drop_left]
  simp only [anchorTurn, Option.bind_eq_bind, hstart, Option.bind_some, List.drop_zero, List.take_zero, hend,
    ← hlength, List.drop_left, hclose, List.take_left, hrest]

end MumbleSip
