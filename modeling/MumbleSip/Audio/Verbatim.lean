import MumbleSip.Audio.Phrase

/-!
# Plain text is spoken as it is written

A Mumble client escapes what a user types. The entities are decoded one after another over the whole text,
`&amp;` last, which undoes the escaping of any text, also of one that looks escaped already.
-/

namespace MumbleSip

open Text

/-! ### Escaping -/

/-- A character as a client writes it into HTML. -/
def escapeChar (c : Char) : List Char :=
  if c = '&' then "&amp;".toList
  else if c = '<' then "&lt;".toList
  else if c = '>' then "&gt;".toList
  else if c = '"' then "&quot;".toList
  else if c = '\'' then "&#39;".toList
  else [c]

def escape (s : List Char) : List Char := s.flatMap escapeChar

/-- Started by `&` and ended by `;`, which do not occur inside. -/
structure IsEntity (entity : List Char) (name : List Char) : Prop where
  eq : entity = '&' :: name ++ [';']
  start : '&' ∉ name
  stop : ';' ∉ name

theorem isEntity_basicEntities : ∀ entity ∈ basicEntities, ∃ name, IsEntity entity.1 name := by
  have h : ∀ entity ∈ basicEntities, IsEntity entity.1 ((entity.1.drop 1).dropLast) := by
    intro entity hentity
    simp only [basicEntities, List.mem_cons, List.not_mem_nil, or_false] at hentity
    rcases hentity with rfl | rfl | rfl | rfl | rfl | rfl <;>
      exact ⟨by decide, by decide, by decide⟩
  exact fun entity hentity => ⟨_, h entity hentity⟩

/-- Every character is written as itself, unless it has an entity, which stands for it alone. -/
theorem escapeChar_cases (c : Char) : escapeChar c = [c] ∧ c ∉ ['&', '<', '>', '"', '\''] ∨
    (escapeChar c, c) ∈ basicEntities := by
  unfold escapeChar
  split_ifs with hamp hlt hgt hquot hapos
  · subst c
    exact .inr (by decide)
  · subst c
    exact .inr (by decide)
  · subst c
    exact .inr (by decide)
  · subst c
    exact .inr (by decide)
  · subst c
    exact .inr (by decide)
  · simp only [List.mem_cons, List.not_mem_nil, or_false, not_or]
    exact .inl ⟨trivial, hamp, hlt, hgt, hquot, hapos⟩

theorem eq_of_escapeChar {entity : List Char × Char} (hentity : entity ∈ basicEntities) {c : Char}
    (h : escapeChar c = entity.1) : entity.2 = c := by
  have hinj : ∀ e ∈ basicEntities, ∀ e' ∈ basicEntities, e.1 = e'.1 → e.2 = e'.2 := by decide
  rcases escapeChar_cases c with ⟨hplain, _⟩ | hmem
  · obtain ⟨name, hname⟩ := isEntity_basicEntities entity hentity
    rw [hplain, hname.eq] at h
    cases name <;> cases h
  · exact hinj entity hentity _ hmem h.symm

/-- The escaped text in which only some entities are left. -/
def partlyEscaped (left : List (List Char)) (c : Char) : List Char :=
  if escapeChar c ∈ left then escapeChar c else [c]

theorem replace_partlyEscaped {entity : List Char × Char} {left : List (List Char × Char)}
    (hall : ∀ e ∈ entity :: left, e ∈ basicEntities) (hfresh : entity.1 ∉ left.map Prod.fst)
    (hamp : "&amp;".toList ∈ (entity :: left).map Prod.fst) (s : List Char) :
    replace entity.1 [entity.2] (s.flatMap (partlyEscaped ((entity :: left).map Prod.fst)))
      = s.flatMap (partlyEscaped (left.map Prod.fst)) := by
  have hentity := hall entity List.mem_cons_self
  obtain ⟨name, hname⟩ := isEntity_basicEntities entity hentity
  have hpat : entity.1 ≠ [] := by
    rw [hname.eq]
    exact List.cons_ne_nil _ _
  refine replace_flatMap (fun c l => ?_) s
  have hmem : escapeChar c ∈ (entity :: left).map Prod.fst ↔
      escapeChar c = entity.1 ∨ escapeChar c ∈ left.map Prod.fst := by
    rw [List.map_cons, List.mem_cons]
  unfold partlyEscaped
  by_cases hself : escapeChar c = entity.1
  · rw [if_pos (hmem.2 (.inl hself)), hself, replace_append_self hpat, if_neg hfresh,
      eq_of_escapeChar hentity hself]
  · by_cases hleft : escapeChar c ∈ left.map Prod.fst
    · rw [if_pos (hmem.2 (.inr hleft)), if_pos hleft]
      obtain ⟨other, hother, heq⟩ := List.mem_map.1 hleft
      obtain ⟨name', hname'⟩ := isEntity_basicEntities other (hall other (List.mem_cons_of_mem _ hother))
      have hnot : ¬ '&' :: (name ++ [';']) <+: '&' :: (name' ++ ';' :: l) := by
        intro hstarts
        have hnames := eq_of_concat_prefix hname.stop hname'.stop (List.cons_prefix_cons.1 hstarts).2
        rw [← heq, hname.eq, hname'.eq, hnames] at hself
        exact hself rfl
      have htail : '&' ∉ name' ++ [';'] := by
        rw [List.mem_append, not_or]
        exact ⟨hname'.start, by decide⟩
      have hkeep : replace ('&' :: (name ++ [';'])) [entity.2] (name' ++ [';'] ++ l) = _ :=
        replace_append_of_not_mem htail l
      rw [List.append_assoc, List.singleton_append] at hkeep
      rw [← heq, hname.eq, hname'.eq, List.cons_append, List.cons_append, List.cons_append,
        List.append_assoc, List.singleton_append, replace_cons_of_not_isPrefix hnot, hkeep]
      rfl
    · rw [if_neg fun h => (hmem.1 h).elim hself hleft, if_neg hleft]
      have hc : '&' ∉ [c] := by
        rw [List.mem_singleton]
        rintro rfl
        rw [List.map_cons, List.mem_cons] at hamp
        exact hamp.elim hself hleft
      rw [hname.eq]
      exact replace_append_of_not_mem hc l

theorem foldl_partlyEscaped (s : List Char) (entities : List (List Char × Char))
    (hall : ∀ e ∈ entities, e ∈ basicEntities)
    (hnodup : (entities.map Prod.fst).Nodup)
    (hamp : ("&amp;".toList, '&') ∈ entities.getLast?) :
    entities.foldl (fun text entity => replace entity.1 [entity.2] text)
      (s.flatMap (partlyEscaped (entities.map Prod.fst))) = s := by
  have hnone : partlyEscaped [] = fun c => [c] := by
    funext c
    exact if_neg List.not_mem_nil
  induction entities with
  | nil => cases hamp
  | cons entity left ih =>
    obtain ⟨hfresh, hleft⟩ := List.nodup_cons.1 hnodup
    have hmem : "&amp;".toList ∈ (entity :: left).map Prod.fst :=
      List.mem_map_of_mem (List.mem_of_getLast? hamp)
    rw [List.foldl_cons, replace_partlyEscaped hall hfresh hmem]
    cases left with
    | nil =>
      rw [List.map_nil, List.foldl_nil, hnone]
      exact List.flatMap_singleton' s
    | cons next left =>
      rw [List.getLast?_cons_cons] at hamp
      exact ih (fun e he => hall e (List.mem_cons_of_mem _ he)) hleft hamp

theorem decode_escape (s : List Char) : decodeBasicHtmlEntities (escape s) = s := by
  have hescape : escape s = s.flatMap (partlyEscaped (basicEntities.map Prod.fst)) := by
    unfold escape
    congr 1
    funext c
    rcases escapeChar_cases c with ⟨hplain, _⟩ | hmem
    · unfold partlyEscaped
      rw [hplain, ite_self]
    · exact (if_pos (List.mem_map_of_mem hmem)).symm
  rw [hescape]
  exact foldl_partlyEscaped s basicEntities (fun _ he => he) (by decide) (by decide)

theorem not_mem_escape {c : Char} (hc : c ∈ ['<', '>', '"']) (s : List Char) : c ∉ escape s := by
  intro hmem
  obtain ⟨d, _, hd⟩ := List.mem_flatMap.1 hmem
  rcases escapeChar_cases d with ⟨hplain, hspecial⟩ | hentity
  · rw [hplain, List.mem_singleton] at hd
    subst d
    exact hspecial (List.mem_of_mem_tail (List.mem_append_left ['\''] hc))
  · have hfree : ∀ entity ∈ basicEntities, entity.1 ∩ ['<', '>', '"'] = [] := by decide
    have hinter := List.mem_inter_iff.2 ⟨hd, hc⟩
    rw [hfree _ hentity] at hinter
    exact List.not_mem_nil hinter

/-! ### Text without tags -/

theorem toAsciiLowercase_append (s t : List Char) :
    toAsciiLowercase (s ++ t) = toAsciiLowercase s ++ toAsciiLowercase t := List.map_append

theorem length_toAsciiLowercase (s : List Char) : (toAsciiLowercase s).length = s.length := List.length_map ..

theorem not_mem_toAsciiLowercase {s : List Char} (h : '<' ∉ s) : '<' ∉ toAsciiLowercase s := by
  intro hmem
  obtain ⟨c, hc, hlower⟩ := List.mem_map.1 hmem
  unfold Char.toLower at hlower
  split at hlower
  · rename_i hupper
    -- the letters are not near the bracket
    have hval := congrArg (fun c => c.val.toNat) hlower
    have hlow : 65 ≤ c.val.toNat := UInt32.le_iff_toNat_le.1 hupper.1
    have hhigh : c.val.toNat ≤ 90 := UInt32.le_iff_toNat_le.1 hupper.2
    have hadd : (c.val + ('a'.val - 'A'.val)).toNat = (c.val.toNat + 32) % 2 ^ 32 := UInt32.toNat_add _ _
    have hcode : ('<' : Char).val.toNat = 60 := rfl
    simp only [hadd, hcode] at hval
    omega
  · exact h (hlower ▸ hc)

theorem replaceHtmlAnchorTags_of_not_mem {s : List Char} (h : '<' ∉ s) : replaceHtmlAnchorTags s = s := by
  have hnone : findAsciiCaseInsensitive s "<a".toList = none := by
    apply find_eq_none.2
    intro hoccurs
    exact not_mem_toAsciiLowercase h (hoccurs.subset (by decide))
  rw [replaceHtmlAnchorTags, hnone]
  split
  · rename_i hnil
    exact hnil.symm
  · rfl

theorem stripTags_append {s : List Char} (hopen : '<' ∉ s) (hclose : '>' ∉ s) (t : List Char) :
    stripTags false (s ++ t) = s ++ stripTags false t := by
  induction s with
  | nil => rfl
  | cons c s ih =>
    rw [List.mem_cons, not_or] at hopen hclose
    rw [List.cons_append, stripTags, if_neg (Ne.symm hopen.1), if_neg (Ne.symm hclose.1),
      ih hopen.2 hclose.2]
    rfl

theorem stripHtmlTags_of_not_mem {s : List Char} (hopen : '<' ∉ s) (hclose : '>' ∉ s) :
    stripHtmlTags s = s := by
  have happend := stripTags_append hopen hclose []
  rwa [List.append_nil, stripTags, List.append_nil] at happend

/-- Escaped text has no tags, and its tokens are those of the text. -/
theorem textMessageTokens_escape (s : List Char) : textMessageTokens (escape s) = words isWhitespace s := by
  have hopen := not_mem_escape (c := '<') (by decide) s
  have hclose := not_mem_escape (c := '>') (by decide) s
  rw [textMessageTokens, replaceHtmlAnchorTags_of_not_mem hopen, stripHtmlTags_of_not_mem hopen hclose,
    decode_escape]

/-! ### What is said -/

/-- The sender as a caller hears it: the trimmed name, or `Someone` if there is none or it is blank. -/
def heardSender : Option String → String
  | some name => if name.toList.all isWhitespace then "Someone" else MumbleSip.trim name
  | none => "Someone"

/-- The text with each run of white space as one space and without white space at its ends. -/
def heardText (s : String) : String :=
  String.ofList (Text.trim isWhitespace (squeeze isWhitespace ' ' false s.toList))

theorem spokenSender_eq (senderName : Option String) : spokenSender senderName = heardSender senderName := by
  cases senderName with
  | none => rfl
  | some name =>
    unfold spokenSender heardSender
    rw [Option.map_some, Option.filter_some, trim_isEmpty]
    cases hblank : name.toList.all isWhitespace with
    | true => simp [hblank]
    | false => simp [hblank]

theorem normalizeTextTokenForTts_cases (token : List Char) :
    normalizeTextTokenForTts token = (token, none) ∨
      ∃ before core after hostname, splitTokenAffixes token = (before, core, after) ∧
        extractUrlHost core = some hostname ∧ normalizeTextTokenForTts token
          = (before ++ hostnameForSpeech hostname ++ after, some (hostnameForSpeech hostname)) := by
  obtain ⟨before, core, after, hsplit⟩ : ∃ before core after,
      splitTokenAffixes token = (before, core, after) := ⟨_, _, _, rfl⟩
  simp only [normalizeTextTokenForTts, hsplit]
  by_cases hcore : core = []
  · exact .inl (if_pos hcore)
  · rw [if_neg hcore]
    cases hhost : extractUrlHost core with
    | none => exact .inl rfl
    | some hostname => exact .inr ⟨before, core, after, hostname, rfl, hhost, rfl⟩

theorem normalizeTextTokenForTts_of_none {token : List Char}
    (h : (normalizeTextTokenForTts token).2 = none) : normalizeTextTokenForTts token = (token, none) := by
  rcases normalizeTextTokenForTts_cases token with heq | ⟨_, _, _, _, _, _, heq⟩
  · exact heq
  · rw [heq] at h
    cases h

theorem collapseWhitespace_join {ws : List (List Char)} (hws : ∀ w ∈ ws, IsWord isWhitespace w) :
    collapseWhitespace (join ' ' ws) = join ' ' ws := by
  rw [collapseWhitespace, words_join (by decide) hws]

theorem analyzeTextMessageForTts_of_none {rawMessage : List Char}
    (hplain : ∀ token ∈ textMessageTokens rawMessage, (normalizeTextTokenForTts token).2 = none) :
    (analyzeTextMessageForTts rawMessage).normalizedMessage = join ' ' (textMessageTokens rawMessage) ∧
      (analyzeTextMessageForTts rawMessage).linkHostsForSpeech = [] := by
  have hnormalized : (textMessageTokens rawMessage).map normalizeTextTokenForTts
      = (textMessageTokens rawMessage).map fun token => (token, none) :=
    List.map_congr_left fun token htoken => normalizeTextTokenForTts_of_none (hplain token htoken)
  simp only [analyzeTextMessageForTts, hnormalized, List.map_map, List.filterMap_map]
  refine ⟨?_, List.filterMap_eq_nil_iff.2 fun _ _ => rfl⟩
  have hfst : (Prod.fst ∘ fun token : List Char => (token, (none : Option (List Char)))) = id := rfl
  rw [hfst, List.map_id]
  exact collapseWhitespace_join fun token htoken => isWord_of_mem_words htoken

/-- Escaped text is spoken verbatim, and decoding undoes the escaping of any text. -/
theorem plain_text_spoken_verbatim :
    (∀ s : List Char, decodeBasicHtmlEntities (escape s) = s) ∧
      ∀ (senderName : Option String) (s : String), (∃ c ∈ s.toList, isWhitespace c = false) →
        (∀ token ∈ words isWhitespace s.toList, (normalizeTextTokenForTts token).2 = none) →
          textMessagePhrase senderName (String.ofList (escape s.toList))
            = heardSender senderName ++ " says: " ++ heardText s := by
  refine ⟨decode_escape, fun senderName s hspoken hplain => ?_⟩
  rw [← textMessageTokens_escape] at hplain
  obtain ⟨hmessage, hhosts⟩ := analyzeTextMessageForTts_of_none hplain
  have hjoin : join ' ' (textMessageTokens (escape s.toList))
      = Text.trim isWhitespace (squeeze isWhitespace ' ' false s.toList) := by
    rw [textMessageTokens_escape, trim_squeeze (by decide)]
  have hsome : Text.trim isWhitespace (squeeze isWhitespace ' ' false s.toList) ≠ [] := by
    rw [trim_squeeze (by decide)]
    intro hnil
    have hjoined : words isWhitespace (join ' ' (words isWhitespace s.toList)) = words isWhitespace s.toList :=
      words_join (by decide) fun w hw => isWord_of_mem_words hw
    rw [hnil] at hjoined
    have hflatten := flatten_words isWhitespace s.toList
    rw [← hjoined, words_nil, List.flatten_nil, eq_comm, List.filter_eq_nil_iff] at hflatten
    obtain ⟨c, hc, hspace⟩ := hspoken
    exact hflatten c hc (by rw [hspace]; rfl)
  simp only [textMessagePhrase, String.toList_ofList, hhosts, hmessage, hjoin, spokenSender_eq]
  rw [if_neg fun h => h.2 rfl, if_neg hsome]
  rfl

/-- A text that looks escaped. -/
def entityText : String := " Is  &lt; the same as \"&amp;lt;\"? "

theorem entityText_spoken : (∃ c ∈ entityText.toList, isWhitespace c = false) ∧
    textMessagePhrase (some " Ann ") (String.ofList (escape entityText.toList))
      = "Ann says: Is &lt; the same as \"&amp;lt;\"?" := by
  have hspoken : ∃ c ∈ entityText.toList, isWhitespace c = false := ⟨'I', by decide, by decide⟩
  refine ⟨hspoken, ?_⟩
  rw [plain_text_spoken_verbatim.2 (some " Ann ") entityText hspoken (by decide)]
  decide

end MumbleSip
