import MumbleSip.Audio.AnchorTurns

/-!
# The text around a link

A Mumble client writes a link as an anchor whose address is escaped once. The address is decoded with the
anchor, and then stripped of tags and decoded again with the rest of the message.
-/

namespace MumbleSip

open Text

/-- A link as a client writes it, with text around it. -/
def linkMessage (pre u inner post : List Char) : List Char :=
  escape pre ++ "<a href=\"".toList ++ escape u ++ "\">".toList ++ inner ++ "</a>".toList ++ escape post

/-! ### The anchor -/

theorem parseAnchorHref_escape (u : List Char) :
    parseAnchorHref ("<a href=\"".toList ++ escape u ++ "\">".toList) = some u := by
  have hhref : find "href".toList (toAsciiLowercase ("<a href=\"".toList ++ escape u ++ "\">".toList))
      = some 3 := by
    have hstart : find "href".toList ("href".toList ++
        ("=\"".toList ++ toAsciiLowercase (escape u ++ "\">".toList))) = some 0 :=
      find_cons_of_isPrefix (List.prefix_append "href".toList _)
    have happend := find_append (show 'h' ∉ "<a ".toList by decide) "ref".toList
      ("href".toList ++ ("=\"".toList ++ toAsciiLowercase (escape u ++ "\">".toList)))
    rw [List.append_assoc, toAsciiLowercase, List.map_append]
    refine happend.trans ?_
    rw [show 'h' :: "ref".toList = "href".toList by decide, hstart]
    rfl
  have hvalue : parseHrefValue ('"' :: (escape u ++ "\">".toList)) = some u := by
    have hquote : find ['"'] (escape u ++ "\">".toList) = some (escape u).length := by
      have hfind : find ['"'] "\">".toList = some 0 := by decide
      rw [find_append (not_mem_escape (by decide) u), hfind, Option.map_some, Nat.zero_add]
    rw [parseHrefValue, if_pos (.inl rfl), hquote, Option.map_some, List.take_left, decode_escape]
  unfold parseAnchorHref
  rw [hhref]
  exact hvalue

theorem replaceHtmlAnchorTags_linkMessage {inner : List Char} (hinner : '<' ∉ inner) (pre u post : List Char) :
    replaceHtmlAnchorTags (linkMessage pre u inner post)
      = escape pre ++ (' ' :: u ++ ' ' :: escape post) := by
  have hopen : "<a href=\"".toList ++ escape u ++ "\">".toList
      = "<a".toList ++ (" href=\"".toList ++ escape u ++ ['"']) ++ ['>'] := by
    have hstart : "<a href=\"".toList = "<a".toList ++ " href=\"".toList := by decide
    have hend : "\">".toList = ['"'] ++ ['>'] := by decide
    rw [hstart, hend]
    simp only [List.append_assoc]
  have hattributes : '>' ∉ " href=\"".toList ++ escape u ++ ['"'] := by
    rw [List.mem_append, List.mem_append, not_or, not_or]
    exact ⟨⟨by decide, not_mem_escape (by decide) u⟩, by decide⟩
  have hmessage : linkMessage pre u inner post = escape pre ++
      ("<a href=\"".toList ++ escape u ++ "\">".toList ++ (inner ++ ("</a>".toList ++ escape post))) := by
    unfold linkMessage
    simp only [List.append_assoc]
  have hnot : ¬"</a>".toList <:+: toAsciiLowercase inner := fun hin =>
    not_mem_toAsciiLowercase hinner (hin.subset (by decide))
  rw [replaceHtmlAnchorTags_eq_pushes, hmessage, pushes_text (not_mem_escape (by decide) pre),
    pushes_of_some (anchorTurn_openTag hopen hattributes hnot (escape post)), List.flatMap_append, out_copied,
    List.map_nil, List.nil_append, List.flatMap_cons, ← replaceHtmlAnchorTags_eq_pushes,
    replaceHtmlAnchorTags_of_not_mem (not_mem_escape (by decide) post), parseAnchorHref_escape, Option.getD_some,
    Pushed.out, List.append_assoc]
  rfl

/-! ### The passes over the address -/

/-- Whether a tag is open after the text. -/
def openAfter (inTag : Bool) : List Char → Bool
  | [] => inTag
  | ch :: rest => openAfter (if ch = '<' then true else if ch = '>' then false else inTag) rest

theorem stripTags_append_eq (inTag : Bool) (s t : List Char) :
    stripTags inTag (s ++ t) = stripTags inTag s ++ stripTags (openAfter inTag s) t := by
  induction s generalizing inTag with
  | nil => rfl
  | cons ch s ih =>
    simp only [List.cons_append, stripTags, openAfter]
    split_ifs
    · rw [ih, List.cons_append]
    · rw [ih, List.cons_append]
    · rw [ih]
    · rw [ih, List.cons_append]

theorem stripTags_true_of_not_mem {s : List Char} (hopen : '<' ∉ s) (hclose : '>' ∉ s) :
    stripTags true s = [] := by
  induction s with
  | nil => rfl
  | cons ch s ih =>
    rw [List.mem_cons, not_or] at hopen hclose
    rw [stripTags, if_neg (Ne.symm hopen.1), if_neg (Ne.symm hclose.1), if_pos rfl, ih hopen.2 hclose.2]

theorem countP_stripTags_le (inTag : Bool) (s : List Char) :
    (stripTags inTag s).countP (!isWhitespace ·) ≤ s.countP (!isWhitespace ·) := by
  induction s generalizing inTag with
  | nil => exact Nat.le_refl _
  | cons ch s ih =>
    have htrue := ih true
    have hfalse := ih false
    have hsame := ih inTag
    have hspace : (!isWhitespace ' ') = false := by decide
    simp only [stripTags]
    split_ifs
    · rw [List.countP_cons, List.countP_cons, hspace, if_neg Bool.false_ne_true]
      omega
    · rw [List.countP_cons, List.countP_cons, hspace, if_neg Bool.false_ne_true]
      omega
    · rw [List.countP_cons]
      omega
    · rw [List.countP_cons, List.countP_cons]
      omega

theorem countP_stripTags_lt {s : List Char} (hmem : '<' ∈ s ∨ '>' ∈ s) (inTag : Bool) :
    (stripTags inTag s).countP (!isWhitespace ·) < s.countP (!isWhitespace ·) := by
  induction s generalizing inTag with
  | nil => exact absurd hmem (by simp)
  | cons ch s ih =>
    have htrue := countP_stripTags_le true s
    have hfalse := countP_stripTags_le false s
    have hspace : (!isWhitespace ' ') = false := by decide
    have hrest : ∀ {c : Char}, ch ≠ c → c ∈ ch :: s → c ∈ s := fun hne hmem =>
      (List.mem_cons.1 hmem).resolve_left (Ne.symm hne)
    simp only [stripTags]
    split_ifs with hopen hclose
    · subst ch
      rw [List.countP_cons, List.countP_cons, hspace, if_neg Bool.false_ne_true,
        if_pos (by decide : (!isWhitespace '<') = true)]
      omega
    · subst ch
      rw [List.countP_cons, List.countP_cons, hspace, if_neg Bool.false_ne_true,
        if_pos (by decide : (!isWhitespace '>') = true)]
      omega
    · have hlt := ih (hmem.imp (hrest hopen) (hrest hclose)) inTag
      rw [List.countP_cons]
      omega
    · have hlt := ih (hmem.imp (hrest hopen) (hrest hclose)) inTag
      rw [List.countP_cons, List.countP_cons]
      omega

/-! ### Decoding -/

section Entities

variable {entities : List (List Char × Char)} {p : Char → Bool}

/-- The entities do not reach over a space. -/
theorem foldl_replace_append_space (hentities : ∀ e ∈ entities, e.1 ≠ [] ∧ ' ' ∉ e.1) (s t : List Char) :
    entities.foldl (fun text entity => replace entity.1 [entity.2] text) (s ++ ' ' :: t)
      = entities.foldl (fun text entity => replace entity.1 [entity.2] text) s ++
        ' ' :: entities.foldl (fun text entity => replace entity.1 [entity.2] text) t := by
  induction entities generalizing s t with
  | nil => rfl
  | cons entity entities ih =>
    obtain ⟨⟨hne, hspace⟩, hrest⟩ := List.forall_mem_cons.1 hentities
    rw [List.foldl_cons, replace_append_cons hne hspace, ih hrest]
    rfl

theorem foldl_replace_of_not_isInfix {s : List Char} (h : ∀ e ∈ entities, ¬e.1 <:+: s) :
    entities.foldl (fun text entity => replace entity.1 [entity.2] text) s = s := by
  induction entities with
  | nil => rfl
  | cons entity entities ih =>
    obtain ⟨hfirst, hrest⟩ := List.forall_mem_cons.1 h
    rw [List.foldl_cons, replace_of_not_isInfix hfirst, ih hrest]

theorem countP_foldl_replace_le (hentities : ∀ e ∈ entities, e.1 ≠ [] ∧ [e.2].countP p < e.1.countP p)
    (s : List Char) :
    (entities.foldl (fun text entity => replace entity.1 [entity.2] text) s).countP p ≤ s.countP p := by
  induction entities generalizing s with
  | nil => exact Nat.le_refl _
  | cons entity entities ih =>
    obtain ⟨⟨hne, hlt⟩, hrest⟩ := List.forall_mem_cons.1 hentities
    exact (ih hrest _).trans (countP_replace_le hne hlt s)

theorem countP_foldl_replace_lt (hentities : ∀ e ∈ entities, e.1 ≠ [] ∧ [e.2].countP p < e.1.countP p)
    {s : List Char} (hmem : ∃ e ∈ entities, e.1 <:+: s) :
    (entities.foldl (fun text entity => replace entity.1 [entity.2] text) s).countP p < s.countP p := by
  induction entities with
  | nil =>
    obtain ⟨e, he, _⟩ := hmem
    cases he
  | cons entity entities ih =>
    obtain ⟨⟨hne, hlt⟩, hrest⟩ := List.forall_mem_cons.1 hentities
    rw [List.foldl_cons]
    by_cases hfirst : entity.1 <:+: s
    · exact (countP_foldl_replace_le hrest _).trans_lt (countP_replace_lt hne hlt hfirst)
    · rw [replace_of_not_isInfix hfirst]
      obtain ⟨e, he, hoccurs⟩ := hmem
      rcases List.mem_cons.1 he with rfl | he
      · exact absurd hoccurs hfirst
      · exact ih hrest ⟨e, he, hoccurs⟩

end Entities

theorem decode_append_space (s t : List Char) : decodeBasicHtmlEntities (s ++ ' ' :: t)
    = decodeBasicHtmlEntities s ++ ' ' :: decodeBasicHtmlEntities t :=
  foldl_replace_append_space (by decide) s t

theorem basicEntities_shrink : ∀ e ∈ basicEntities,
    e.1 ≠ [] ∧ [e.2].countP (!isWhitespace ·) < e.1.countP (!isWhitespace ·) := by
  decide

/-! ### The tokens -/

/-- No tag and no entity is left in the address once it is decoded. -/
def PlainAddress (u : List Char) : Prop := '<' ∉ u ∧ '>' ∉ u ∧ ∀ e ∈ basicEntities, ¬e.1 <:+: u

instance (u : List Char) : Decidable (PlainAddress u) := inferInstanceAs (Decidable (_ ∧ _ ∧ _))

/-- The message is cut into the tokens of the text before the link, of the address and of the text after it,
and each is spoken. -/
def KeepsText (pre u inner post : List Char) : Prop :=
  textMessageTokens (linkMessage pre u inner post)
      = words isWhitespace pre ++ words isWhitespace u ++ words isWhitespace post ∧
    ∀ token ∈ words isWhitespace pre ++ words isWhitespace u ++ words isWhitespace post,
      (normalizeTextTokenForTts token).1 <:+:
        (analyzeTextMessageForTts (linkMessage pre u inner post)).normalizedMessage

/-- The address has gone through the passes of the message, and a tag it opens takes the text after it away. -/
theorem textMessageTokens_linkMessage {inner : List Char} (hinner : '<' ∉ inner) (pre u post : List Char) :
    textMessageTokens (linkMessage pre u inner post) = words isWhitespace pre ++
      words isWhitespace (decodeBasicHtmlEntities (stripTags false u)) ++
        if openAfter false u then [] else words isWhitespace post := by
  have hopen : ∀ s, '<' ∉ escape s := not_mem_escape (by decide)
  have hclose : ∀ s, '>' ∉ escape s := not_mem_escape (by decide)
  have hspace : isWhitespace ' ' = true := by decide
  rw [textMessageTokens, replaceHtmlAnchorTags_linkMessage hinner, stripHtmlTags,
    stripTags_append (hopen pre) (hclose pre), List.cons_append,
    show stripTags false (' ' :: (u ++ ' ' :: escape post)) = ' ' :: stripTags false (u ++ ' ' :: escape post)
      from rfl, stripTags_append_eq, decode_append_space, decode_escape, words_append_cons hspace,
    List.append_assoc]
  congr 1
  cases openAfter false u with
  | true =>
    have hnone : stripTags true (' ' :: escape post) = [] := by
      show stripTags true (escape post) = []
      exact stripTags_true_of_not_mem (hopen post) (hclose post)
    rw [hnone, List.append_nil, if_pos rfl, List.append_nil]
  | false =>
    have hpost : stripTags false (' ' :: escape post) = ' ' :: escape post := by
      show ' ' :: stripHtmlTags (escape post) = _
      rw [stripHtmlTags_of_not_mem (hopen post) (hclose post)]
    rw [hpost, decode_append_space, decode_escape, words_append_cons hspace, if_neg Bool.false_ne_true]

theorem openAfter_of_not_mem {u : List Char} (hopen : '<' ∉ u) (inTag : Bool) (hclose : '>' ∉ u) :
    openAfter inTag u = inTag := by
  induction u with
  | nil => rfl
  | cons ch u ih =>
    rw [List.mem_cons, not_or] at hopen hclose
    rw [openAfter, if_neg (Ne.symm hopen.1), if_neg (Ne.symm hclose.1), ih hopen.2 hclose.2]

theorem length_flatten_words (s : List Char) :
    (words isWhitespace s).flatten.length = s.countP (!isWhitespace ·) := by
  rw [flatten_words, List.countP_eq_length_filter]

theorem tokens_eq_iff {inner : List Char} (hinner : '<' ∉ inner) (pre u post : List Char) :
    textMessageTokens (linkMessage pre u inner post)
      = words isWhitespace pre ++ words isWhitespace u ++ words isWhitespace post ↔ PlainAddress u := by
  rw [textMessageTokens_linkMessage hinner]
  constructor
  · intro htokens
    have hlength := congrArg (fun tokens => tokens.flatten.length) htokens
    simp only [List.flatten_append, List.length_append, length_flatten_words] at hlength
    have hpost : (if openAfter false u then [] else words isWhitespace post).flatten.length
        ≤ post.countP (!isWhitespace ·) := by
      split_ifs
      · exact Nat.zero_le _
      · exact (length_flatten_words post).le
    have hbrackets : ¬('<' ∈ u ∨ '>' ∈ u) := by
      intro hmem
      have hstrip := countP_stripTags_lt hmem false
      have hdecode : (decodeBasicHtmlEntities (stripTags false u)).countP (!isWhitespace ·)
          ≤ (stripTags false u).countP (!isWhitespace ·) := countP_foldl_replace_le basicEntities_shrink _
      omega
    rw [not_or] at hbrackets
    refine ⟨hbrackets.1, hbrackets.2, fun e he hoccurs => ?_⟩
    have hstrip : stripTags false u = u := stripHtmlTags_of_not_mem hbrackets.1 hbrackets.2
    have hdecode : (decodeBasicHtmlEntities u).countP (!isWhitespace ·) < u.countP (!isWhitespace ·) :=
      countP_foldl_replace_lt basicEntities_shrink ⟨e, he, hoccurs⟩
    rw [hstrip] at hlength
    omega
  · rintro ⟨hopen, hclose, hentities⟩
    have hstrip : stripTags false u = u := stripHtmlTags_of_not_mem hopen hclose
    rw [hstrip, decodeBasicHtmlEntities, foldl_replace_of_not_isInfix hentities,
      openAfter_of_not_mem hopen false hclose, if_neg Bool.false_ne_true]

/-! ### What is spoken of a token -/

theorem splitTokenAffixes_subset {token before core after : List Char}
    (h : splitTokenAffixes token = (before, core, after)) : before ⊆ token ∧ after ⊆ token := by
  unfold splitTokenAffixes at h
  simp only at h
  split_ifs at h
  · cases h
    exact ⟨fun _ hc => hc, List.nil_subset _⟩
  · cases h
    exact ⟨List.take_subset _ _, List.drop_subset _ _⟩

/-- What is spoken of a token is some words with single spaces between. -/
theorem exists_join_normalizeTextTokenForTts {token : List Char} (htoken : IsWord isWhitespace token) :
    ∃ ws, (∀ w ∈ ws, IsWord isWhitespace w) ∧ (normalizeTextTokenForTts token).1 = join ' ' ws := by
  rcases normalizeTextTokenForTts_cases token with heq | ⟨before, core, after, hostname, hsplit, _, heq⟩
  · refine ⟨[token], fun w hw => List.mem_singleton.1 hw ▸ htoken, ?_⟩
    rw [heq, join_singleton]
  · obtain ⟨hbefore, hafter⟩ := splitTokenAffixes_subset hsplit
    obtain ⟨ws, hws, hfront⟩ := exists_append_join ' '
      (fun w hw => isWord_of_mem_words hw) fun c hc => htoken.2 c (hbefore hc)
    obtain ⟨vs, hvs, hback⟩ := exists_join_append ' ' hws fun c hc => htoken.2 c (hafter hc)
    refine ⟨vs, hvs, ?_⟩
    rw [heq, ← hback, ← hfront]
    rfl

/-- **Every token is spoken.** -/
theorem normalized_isInfix {rawMessage token : List Char} (htoken : token ∈ textMessageTokens rawMessage) :
    (normalizeTextTokenForTts token).1 <:+: (analyzeTextMessageForTts rawMessage).normalizedMessage := by
  obtain ⟨ws, hws, heq⟩ := exists_join_normalizeTextTokenForTts (isWord_of_mem_words htoken)
  have hsep : isWhitespace ' ' = true := by decide
  have hspoken : (analyzeTextMessageForTts rawMessage).normalizedMessage
      = join ' ' (((textMessageTokens rawMessage).map fun token => (normalizeTextTokenForTts token).1).flatMap
        (words isWhitespace)) := by
    rw [← words_join_flatMap hsep]
    simp only [analyzeTextMessageForTts, collapseWhitespace, List.map_map]
    rfl
  have hwords : words isWhitespace (normalizeTextTokenForTts token).1 = ws := by
    rw [heq, words_join hsep hws]
  rw [hspoken, heq, ← hwords]
  exact join_isInfix (List.infix_flatMap_of_mem
    (List.mem_map_of_mem (f := fun token => (normalizeTextTokenForTts token).1) htoken) (words isWhitespace))

/-- Exactly for an address without brackets and entities, nothing around the link is lost. -/
theorem text_around_link_kept_iff {inner : List Char} (hinner : '<' ∉ inner) (pre u post : List Char) :
    KeepsText pre u inner post ↔ PlainAddress u := by
  rw [← tokens_eq_iff hinner pre u post]
  refine ⟨And.left, fun htokens => ⟨htokens, fun token htoken => ?_⟩⟩
  rw [← htokens] at htoken
  exact normalized_isInfix htoken

/-- A link with one parameter and text on both sides. -/
theorem text_around_search_link :
    KeepsText "see".toList "https://example.org/?a=1&b=2".toList "this".toList "for more".toList :=
  (text_around_link_kept_iff (by decide) _ _ _).2 (by decide)

/-- A bracket in the address opens a tag, which swallows the text after the link. -/
theorem text_after_bracket_lost : ¬∀ pre u inner post : List Char, '<' ∉ inner → KeepsText pre u inner post := by
  intro hclaim
  have hkeeps := hclaim [] "http://x.org/a<b".toList "link".toList "please reply".toList (by decide)
  have htokens := hkeeps.1
  revert htokens
  decide +kernel

end MumbleSip
