import MumbleSip.Audio.AnchorTurns

/-!
# Each anchor is replaced by its own address

The loop over a message looks for `<a`, which other tags contain, too, and the address of an anchor is what
follows the first `href` in it, which need not be the name of an attribute.
-/

namespace MumbleSip

open Text

/-! ### Messages -/

def isAttributeNameChar (c : Char) : Bool := !isWhitespace c && c != '=' && c != '>'

structure Attribute where
  name : List Char
  value : List Char
  name_ok : name.all isAttributeNameChar = true
  value_ok : '"' ∉ value ∧ '>' ∉ value

def Attribute.html (attr : Attribute) : List Char :=
  ' ' :: (attr.name ++ ('=' :: '"' :: (attr.value ++ ['"'])))

def Attribute.isHref (attr : Attribute) : Bool := toAsciiLowercase attr.name == "href".toList

def isTagNameChar (c : Char) : Bool := !isWhitespace c && c != '/' && c != '<' && c != '>'

/-- A tag of an element that is not an anchor. -/
structure OtherTag where
  closing : Bool
  name : List Char
  rest : List Char
  name_ne : name ≠ [] ∧ toAsciiLowercase name ≠ ['a']
  name_ok : name.all isTagNameChar = true
  rest_ok : '>' ∉ rest ∧ rest.head?.all (fun c => isWhitespace c || c == '/') = true

def OtherTag.body (tag : OtherTag) : List Char :=
  (if tag.closing then "</".toList else ['<']) ++ (tag.name ++ tag.rest)

def OtherTag.html (tag : OtherTag) : List Char := tag.body ++ ['>']

structure Anchor where
  attributes : List Attribute
  inner : List Char
  inner_ok : ¬"<a".toList <:+: toAsciiLowercase inner ∧ ¬"</a>".toList <:+: toAsciiLowercase inner

def Anchor.openTag (anchor : Anchor) : List Char :=
  "<a".toList ++ (anchor.attributes.flatMap Attribute.html ++ ['>'])

def Anchor.html (anchor : Anchor) : List Char := anchor.openTag ++ (anchor.inner ++ "</a>".toList)

inductive Piece
  | text (s : List Char)
  | tag (t : OtherTag)
  | anchor (a : Anchor)

def Piece.html : Piece → List Char
  | .text s => escape s
  | .tag t => t.html
  | .anchor a => a.html

def htmlMessage (pieces : List Piece) : List Char := pieces.flatMap Piece.html

/-! ### The address -/

/-- What follows the first `href`. -/
def behindHref (tag : List Char) : Option (List Char) :=
  (find "href".toList (toAsciiLowercase tag)).map fun hrefIdx => tag.drop (hrefIdx + "href".toList.length)

/-- What `parse_anchor_href` makes of it. -/
def parseBehindHref (behind : List Char) : Option (List Char) :=
  match behind.dropWhile isWhitespace with
  | '=' :: value => parseHrefValue (value.dropWhile isWhitespace)
  | _ => none

theorem parseAnchorHref_eq (openTag : List Char) :
    parseAnchorHref openTag = (behindHref openTag).bind parseBehindHref := by
  rw [parseAnchorHref, behindHref, Option.bind_map]
  rfl

variable {l : List Char}

theorem behindHref_eq_none : behindHref l = none ↔ ¬"href".toList <:+: toAsciiLowercase l := by
  rw [behindHref, Option.map_eq_none_iff, find_eq_none]

theorem behindHref_append_of_some {m : List Char} (hl : behindHref l = some m) (r : List Char) :
    behindHref (l ++ r) = some (m ++ r) := by
  rw [behindHref, Option.map_eq_some_iff] at hl
  obtain ⟨hrefIdx, hfind, rfl⟩ := hl
  have hne : "href".toList ≠ [] := by decide
  have hlength := length_le_of_find hne hfind
  rw [length_toAsciiLowercase] at hlength
  rw [behindHref, toAsciiLowercase_append, find_append_of_eq_some hne hfind, Option.map_some,
    List.drop_append_of_le_length hlength]

theorem behindHref_append_cons {c : Char} (hc : c.toLower ∉ "href".toList) (hl : behindHref l = none)
    (r : List Char) : behindHref (l ++ c :: r) = behindHref r := by
  have hfind := find_append_cons hc (behindHref_eq_none.1 hl) (toAsciiLowercase r)
  rw [behindHref, toAsciiLowercase_append]
  rw [show toAsciiLowercase (c :: r) = c.toLower :: toAsciiLowercase r from rfl, hfind, Option.map_map,
    behindHref]
  congr 1
  funext hrefIdx
  have hindex : hrefIdx + ((toAsciiLowercase l).length + 1) + "href".toList.length
      = l.length + (hrefIdx + "href".toList.length + 1) := by
    rw [length_toAsciiLowercase]
    omega
  simp only [Function.comp_apply]
  rw [hindex, List.drop_length_add_append, List.drop_succ_cons]

/-- The first `href` behind an attribute is in its name, in its value or behind it. -/
theorem behindHref_html (attr : Attribute) (tail : List Char) : behindHref (attr.html ++ tail) =
    ((behindHref attr.name).map (· ++ '=' :: '"' :: (attr.value ++ '"' :: tail))).or
      (((behindHref attr.value).map (· ++ '"' :: tail)).or (behindHref tail)) := by
  have hnil : behindHref [] = none := by decide
  have hhtml : attr.html ++ tail
      = [] ++ ' ' :: (attr.name ++ '=' :: ([] ++ '"' :: (attr.value ++ '"' :: tail))) := by
    simp only [Attribute.html, List.cons_append, List.append_assoc, List.nil_append]
  rw [hhtml, behindHref_append_cons (by decide) hnil]
  cases hname : behindHref attr.name with
  | some behind => rw [behindHref_append_of_some hname, Option.map_some, Option.some_or, List.nil_append]
  | none =>
    rw [behindHref_append_cons (by decide) hname, behindHref_append_cons (by decide) hnil,
      Option.map_none, Option.none_or]
    cases hvalue : behindHref attr.value with
    | some behind => rw [behindHref_append_of_some hvalue, Option.map_some, Option.some_or]
    | none => rw [behindHref_append_cons (by decide) hvalue, Option.map_none, Option.none_or]

theorem parseBehindHref_value (attr : Attribute) (tail : List Char) :
    parseBehindHref ('=' :: '"' :: (attr.value ++ '"' :: tail)) = some (decodeBasicHtmlEntities attr.value) := by
  have hquote : find ['"'] (attr.value ++ '"' :: tail) = some attr.value.length := by
    have hfind : find ['"'] ('"' :: tail) = some 0 := find_cons_of_isPrefix ⟨tail, rfl⟩
    rw [find_append attr.value_ok.1, hfind, Option.map_some, Nat.zero_add]
  show parseHrefValue ('"' :: (attr.value ++ '"' :: tail)) = _
  rw [parseHrefValue, if_pos (.inl rfl), hquote, Option.map_some, List.take_left]

theorem parseBehindHref_name (attr : Attribute) {c : Char} (hc : c ∈ attr.name) (behind : List Char) :
    parseBehindHref (c :: behind) = none := by
  have hchar := List.all_eq_true.1 attr.name_ok c hc
  simp only [isAttributeNameChar, Bool.and_eq_true, bne_iff_ne, Bool.not_eq_true'] at hchar
  obtain ⟨⟨hspace, hequals⟩, _⟩ := hchar
  rw [parseBehindHref, List.dropWhile_cons_of_neg (by rw [hspace]; exact Bool.false_ne_true)]
  split
  · rename_i value heq
    exact absurd (List.cons.inj heq).1 hequals
  · rfl

theorem subset_of_behindHref {m : List Char} (hl : behindHref l = some m) : m ⊆ l := by
  rw [behindHref, Option.map_eq_some_iff] at hl
  obtain ⟨hrefIdx, _, rfl⟩ := hl
  exact List.drop_subset _ _

theorem behindHref_of_isHref {attr : Attribute} (hhref : attr.isHref = true) :
    behindHref attr.name = some [] := by
  have hname : toAsciiLowercase attr.name = "href".toList := beq_iff_eq.1 hhref
  have hlength : attr.name.length = "href".toList.length := by
    rw [← length_toAsciiLowercase, hname]
  have hfind : find "href".toList "href".toList = some 0 := by decide
  rw [behindHref, hname, hfind, Option.map_some, Nat.zero_add, ← hlength, List.drop_length]

/-- What is to be read of an anchor: its own address, or the text in it. -/
def Anchor.own (anchor : Anchor) : List Char :=
  ((anchor.attributes.find? Attribute.isHref).map fun attr => decodeBasicHtmlEntities attr.value).getD anchor.inner

/-- The first `href` is the name of an attribute. If it is the end of another name or in the middle of one, or
in a value, what is read there happens to be the same. -/
def FirstHrefFits (inner own : List Char) : List Attribute → Prop
  | [] => True
  | attr :: rest => attr.isHref = true ∨
    match behindHref attr.name, behindHref attr.value with
    | some [], _ => decodeBasicHtmlEntities attr.value = own
    | some (_ :: _), _ => inner = own
    | none, some behind =>
      (parseBehindHref (behind ++ '"' :: (rest.flatMap Attribute.html ++ ['>']))).getD inner = own
    | none, none => FirstHrefFits inner own rest

theorem attributes_fit_iff (inner : List Char) (attributes : List Attribute) {own : List Char}
    (hown : ((attributes.find? Attribute.isHref).map fun attr => decodeBasicHtmlEntities attr.value).getD inner
      = own) :
    ((behindHref (attributes.flatMap Attribute.html ++ ['>'])).bind parseBehindHref).getD inner = own ↔
      FirstHrefFits inner own attributes := by
  induction attributes with
  | nil =>
    have hnone : behindHref ['>'] = none := by decide
    rw [List.flatMap_nil, List.nil_append, hnone]
    exact iff_of_true hown trivial
  | cons attr rest ih =>
    rw [List.flatMap_cons, List.append_assoc, behindHref_html, FirstHrefFits]
    by_cases hhref : attr.isHref = true
    · rw [List.find?_cons_of_pos hhref] at hown
      rw [behindHref_of_isHref hhref, Option.map_some, Option.some_or, List.nil_append, Option.bind_some,
        parseBehindHref_value]
      exact iff_of_true hown (.inl hhref)
    · rw [List.find?_cons_of_neg hhref] at hown
      rw [or_iff_right hhref]
      cases hname : behindHref attr.name with
      | some behind =>
        cases behind with
        | nil =>
          rw [Option.map_some, Option.some_or, List.nil_append, Option.bind_some, parseBehindHref_value,
            Option.getD_some]
        | cons c behind =>
          have hc : c ∈ attr.name := subset_of_behindHref hname List.mem_cons_self
          rw [Option.map_some, Option.some_or, List.cons_append, Option.bind_some,
            parseBehindHref_name attr hc, Option.getD_none]
      | none =>
        cases hvalue : behindHref attr.value with
        | some behind =>
          rw [Option.map_none, Option.none_or, Option.map_some, Option.some_or, Option.bind_some]
        | none =>
          rw [Option.map_none, Option.none_or, Option.map_none, Option.none_or]
          exact ih hown

/-- What is read of an anchor is its own. -/
theorem Anchor.reads_own_iff (anchor : Anchor) :
    (parseAnchorHref anchor.openTag).getD anchor.inner = anchor.own ↔
      FirstHrefFits anchor.inner anchor.own anchor.attributes := by
  have hopen : behindHref anchor.openTag
      = behindHref (anchor.attributes.flatMap Attribute.html ++ ['>']) := by
    have hnone : behindHref ['<'] = none := by decide
    exact behindHref_append_cons (c := 'a') (by decide) hnone _
  rw [parseAnchorHref_eq, hopen]
  exact attributes_fit_iff _ _ rfl

/-! ### The pieces -/

/-- What the loop is to add to the output for a piece. -/
def Piece.pushed : Piece → List Pushed
  | .text s => (escape s).map .copied
  | .tag t => t.html.map .copied
  | .anchor a => [.replacement a.own]

/-- A tag with `<a` in it is taken for an anchor, unless no anchor can end behind it. -/
def AnchorsFit : List Piece → Prop
  | [] => True
  | .text _ :: rest => AnchorsFit rest
  | .tag t :: rest =>
    if "<a".toList <:+: toAsciiLowercase t.html then ¬"</a>".toList <:+: toAsciiLowercase (htmlMessage rest)
    else AnchorsFit rest
  | .anchor a :: rest => FirstHrefFits a.inner a.own a.attributes ∧ AnchorsFit rest

theorem OtherTag.not_mem_body (tag : OtherTag) : '>' ∉ tag.body := by
  have hname : '>' ∉ tag.name := by
    intro hmem
    have hchar := List.all_eq_true.1 tag.name_ok '>' hmem
    revert hchar
    decide
  rw [OtherTag.body, List.mem_append, List.mem_append, not_or, not_or]
  refine ⟨?_, hname, tag.rest_ok.1⟩
  cases tag.closing <;> decide

theorem pushes_tag {tag : OtherTag} (hnot : ¬"<a".toList <:+: toAsciiLowercase tag.html) (l : List Char) :
    pushes (tag.html ++ l) = tag.html.map .copied ++ pushes l := by
  have hbody : ¬toAsciiLowercase "<a".toList <:+: toAsciiLowercase tag.body := by
    intro hin
    rw [toAsciiLowercase_startTag] at hin
    apply hnot
    rw [OtherTag.html, toAsciiLowercase_append]
    exact hin.trans (List.infix_append [] _ _)
  apply pushes_append
  have hfind := find_append_cons (x := '>') (by decide) hbody (toAsciiLowercase l)
  rw [findAsciiCaseInsensitive, OtherTag.html, List.append_assoc, toAsciiLowercase_append]
  refine hfind.trans ?_
  rw [length_toAsciiLowercase, List.length_append]
  rfl

theorem anchorTurn_tag {tag : OtherTag} (hin : "<a".toList <:+: toAsciiLowercase tag.html) (l : List Char) :
    ∃ anchorStart, anchorStart < tag.html.length ∧ ∃ replacement : Nat → List Char,
      anchorTurn (tag.html ++ l) = (findAsciiCaseInsensitive l "</a>".toList).map fun closeTag =>
        ⟨tag.html.take anchorStart, replacement closeTag, l.drop (closeTag + "</a>".toList.length)⟩ := by
  have hne : "<a".toList ≠ [] := by decide
  obtain ⟨anchorStart, hstart⟩ : ∃ anchorStart, find "<a".toList (toAsciiLowercase tag.html)
      = some anchorStart := by
    apply Option.ne_none_iff_exists'.1
    rw [Ne, find_eq_none, not_not]
    exact hin
  have hlength := length_le_of_find hne hstart
  have htwo : "<a".toList.length = 2 := by decide
  have hhtml : tag.html.length = tag.body.length + 1 := List.length_append
  rw [length_toAsciiLowercase, htwo] at hlength
  have hfound : findAsciiCaseInsensitive (tag.html ++ l) "<a".toList = some anchorStart := by
    rw [findAsciiCaseInsensitive, toAsciiLowercase_append, toAsciiLowercase_startTag]
    exact find_append_of_eq_some hne hstart _
  have hdrop : (tag.html ++ l).drop anchorStart = tag.body.drop anchorStart ++ '>' :: l := by
    rw [OtherTag.html, List.append_assoc, List.drop_append_of_le_length (by omega)]
    rfl
  have hend : find ['>'] (tag.body.drop anchorStart ++ '>' :: l) = some (tag.body.drop anchorStart).length := by
    have hnot : '>' ∉ tag.body.drop anchorStart := fun hmem => tag.not_mem_body (List.mem_of_mem_drop hmem)
    have hfind : find ['>'] ('>' :: l) = some 0 := find_cons_of_isPrefix ⟨l, rfl⟩
    rw [find_append hnot, hfind, Option.map_some, Nat.zero_add]
  have hinner : (tag.body.drop anchorStart ++ '>' :: l).drop ((tag.body.drop anchorStart).length + 1) = l := by
    rw [List.drop_length_add_append, List.drop_succ_cons, List.drop_zero]
  have htake : (tag.html ++ l).take anchorStart = tag.html.take anchorStart :=
    List.take_append_of_le_length (by omega)
  refine ⟨anchorStart, by omega, fun closeTag => (parseAnchorHref ((tag.body.drop anchorStart ++ '>' :: l).take
    ((tag.body.drop anchorStart).length + 1))).getD (l.take closeTag), ?_⟩
  simp only [anchorTurn, Option.bind_eq_bind, hfound, Option.bind_some, hdrop, hend, hinner, htake]
  cases findAsciiCaseInsensitive l "</a>".toList <;> rfl

theorem Attribute.not_mem_html (attr : Attribute) : '>' ∉ attr.html := by
  have hname : '>' ∉ attr.name := by
    intro hmem
    have hchar := List.all_eq_true.1 attr.name_ok '>' hmem
    revert hchar
    decide
  simp only [Attribute.html, List.mem_cons, List.mem_append, List.not_mem_nil, or_false, not_or]
  exact ⟨by decide, hname, by decide, by decide, attr.value_ok.2, by decide⟩

theorem anchorTurn_anchor (anchor : Anchor) (l : List Char) :
    anchorTurn (anchor.html ++ l) =
      some ⟨[], (parseAnchorHref anchor.openTag).getD anchor.inner, l⟩ := by
  have hopen : anchor.openTag = "<a".toList ++ anchor.attributes.flatMap Attribute.html ++ ['>'] := by
    rw [Anchor.openTag, List.append_assoc]
  have hattributes : '>' ∉ anchor.attributes.flatMap Attribute.html := by
    rw [List.mem_flatMap]
    rintro ⟨attr, _, hmem⟩
    exact attr.not_mem_html hmem
  rw [Anchor.html, List.append_assoc, List.append_assoc]
  exact anchorTurn_openTag hopen hattributes anchor.inner_ok.2 l

/-! ### Messages as a whole -/

/-- Without the end of an anchor, there is no anchor. -/
theorem flatMap_pushed {pieces : List Piece}
    (hnot : ¬"</a>".toList <:+: toAsciiLowercase (htmlMessage pieces)) :
    pieces.flatMap Piece.pushed = (htmlMessage pieces).map .copied := by
  induction pieces with
  | nil => rfl
  | cons piece rest ih =>
    have hhtml : htmlMessage (piece :: rest) = piece.html ++ htmlMessage rest := List.flatMap_cons
    rw [hhtml, toAsciiLowercase_append] at hnot
    have hrest := ih fun hin => hnot (hin.trans (List.suffix_append _ _).isInfix)
    rw [List.flatMap_cons, hrest, hhtml, List.map_append]
    cases piece with
    | text s => rfl
    | tag t => rfl
    | anchor a =>
      exfalso
      apply hnot
      have hwhole : (Piece.anchor a).html = a.openTag ++ a.inner ++ "</a>".toList :=
        (List.append_assoc _ _ _).symm
      rw [hwhole, toAsciiLowercase_append, toAsciiLowercase_endTag]
      exact (List.suffix_append _ _).isInfix.trans (List.prefix_append _ _).isInfix

theorem copied_append_ne {s text : List Char} {i : Nat} (hi : i < s.length) (pushed pushed' : List Pushed) :
    (s.take i).map Pushed.copied ++ .replacement text :: pushed ≠ s.map .copied ++ pushed' := by
  intro heq
  have hdrop : s.drop i = s[i] :: s.drop (i + 1) := List.drop_eq_getElem_cons hi
  have hsplit : s.map Pushed.copied = (s.take i).map .copied ++ (s.drop i).map .copied := by
    rw [← List.map_append, List.take_append_drop]
  rw [hsplit, List.append_assoc] at heq
  have htail := List.append_cancel_left heq
  rw [hdrop, List.map_cons, List.cons_append] at htail
  cases (List.cons.inj htail).1

theorem pushes_tag_iff {tag : OtherTag} (hin : "<a".toList <:+: toAsciiLowercase tag.html)
    (rest : List Piece) :
    pushes (tag.html ++ htmlMessage rest) = tag.html.map .copied ++ rest.flatMap Piece.pushed ↔
      ¬"</a>".toList <:+: toAsciiLowercase (htmlMessage rest) := by
  obtain ⟨anchorStart, hlt, replacement, hturn⟩ := anchorTurn_tag hin (htmlMessage rest)
  cases hclose : findAsciiCaseInsensitive (htmlMessage rest) "</a>".toList with
  | none =>
    have hnot := findAsciiCaseInsensitive_eq_none.1 hclose
    rw [toAsciiLowercase_endTag] at hnot
    rw [hclose, Option.map_none] at hturn
    refine iff_of_true ?_ hnot
    rw [pushes_of_none hturn, flatMap_pushed hnot, List.map_append]
  | some closeTag =>
    have hne : findAsciiCaseInsensitive (htmlMessage rest) "</a>".toList ≠ none := by
      rw [hclose]
      exact Option.some_ne_none _
    rw [Ne, findAsciiCaseInsensitive_eq_none, toAsciiLowercase_endTag] at hne
    rw [hclose, Option.map_some] at hturn
    refine iff_of_false ?_ hne
    rw [pushes_of_some hturn]
    exact copied_append_ne hlt _ _

/-- The turns of the loop on a message. -/
theorem pushes_htmlMessage_iff (pieces : List Piece) :
    pushes (htmlMessage pieces) = pieces.flatMap Piece.pushed ↔ AnchorsFit pieces := by
  induction pieces with
  | nil => exact iff_of_true (pushes_of_none (by decide)) trivial
  | cons piece rest ih =>
    have hhtml : htmlMessage (piece :: rest) = piece.html ++ htmlMessage rest := List.flatMap_cons
    rw [hhtml, List.flatMap_cons]
    cases piece with
    | text s =>
      have htext : pushes ((Piece.text s).html ++ htmlMessage rest)
          = (escape s).map .copied ++ pushes (htmlMessage rest) := pushes_text (not_mem_escape (by decide) s) _
      have hpushed : (Piece.text s).pushed = (escape s).map .copied := rfl
      rw [htext, hpushed, AnchorsFit, ← ih, List.append_right_inj]
    | tag t =>
      by_cases hin : "<a".toList <:+: toAsciiLowercase t.html
      · rw [AnchorsFit, if_pos hin]
        exact pushes_tag_iff hin rest
      · have htag : pushes ((Piece.tag t).html ++ htmlMessage rest)
            = t.html.map .copied ++ pushes (htmlMessage rest) := pushes_tag hin _
        have hpushed : (Piece.tag t).pushed = t.html.map .copied := rfl
        rw [htag, hpushed, AnchorsFit, if_neg hin, ← ih, List.append_right_inj]
    | anchor a =>
      have hreplaced : pushes ((Piece.anchor a).html ++ htmlMessage rest)
          = .replacement ((parseAnchorHref a.openTag).getD a.inner) :: pushes (htmlMessage rest) :=
        pushes_of_some (anchorTurn_anchor a _)
      have hown : (Piece.anchor a).pushed = [.replacement a.own] := rfl
      rw [hreplaced, hown, List.singleton_append, List.cons.injEq, ih, Pushed.replacement.injEq,
        a.reads_own_iff, AnchorsFit]

/-- What is outside the anchors is copied, and each anchor is replaced by its own address, or by the text in it
if it has none. -/
def RewritesAnchors (pieces : List Piece) : Prop :=
  pushes (htmlMessage pieces) = pieces.flatMap Piece.pushed ∧
    replaceHtmlAnchorTags (htmlMessage pieces) = (pieces.flatMap Piece.pushed).flatMap Pushed.out

/-- **The anchors** are rewritten exactly if no tag of another element is taken for one, and the first `href`
of each is its own. -/
theorem anchors_rewritten_iff (pieces : List Piece) : RewritesAnchors pieces ↔ AnchorsFit pieces := by
  rw [← pushes_htmlMessage_iff]
  constructor
  · exact And.left
  · intro hpushes
    refine ⟨hpushes, ?_⟩
    rw [replaceHtmlAnchorTags_eq_pushes, hpushes]

/-- A link behind an abbreviation. -/
def abbreviationMessage : List Piece :=
  [.tag ⟨false, "abbr".toList, [], by decide, by decide, by decide⟩,
    .text "tbd".toList,
    .tag ⟨true, "abbr".toList, [], by decide, by decide, by decide⟩,
    .anchor ⟨[⟨"href".toList, "https://x.org".toList, by decide, by decide⟩], "here".toList,
      by decide⟩]

/-- The abbreviation is taken for the anchor, and the address is not. -/
theorem replaceHtmlAnchorTags_abbreviation : replaceHtmlAnchorTags (htmlMessage abbreviationMessage)
    = " tbd</abbr><a href=\"https://x.org\">here ".toList := by
  have hturn : anchorTurn (htmlMessage abbreviationMessage)
      = some ⟨[], "tbd</abbr><a href=\"https://x.org\">here".toList, []⟩ := by
    decide
  rw [replaceHtmlAnchorTags_eq_pushes, pushes_of_some hturn, pushes_of_none (by decide)]
  decide

theorem abbreviation_taken_for_anchor : ¬∀ pieces, RewritesAnchors pieces := by
  intro hall
  have hout := (hall abbreviationMessage).2
  rw [replaceHtmlAnchorTags_abbreviation] at hout
  revert hout
  decide

end MumbleSip
