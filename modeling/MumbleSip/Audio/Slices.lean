import MumbleSip.Audio.AnchorTurns
import MumbleSip.Lib.Utf8

/-!
# Slices of a message

The functions of `tts.rs` that cut a message into pieces, with the positions as the code has them: bytes from
the start of a string. A slice that panics has no result, and an index that is out of bounds has none either.
-/

namespace MumbleSip.Bytewise

open Text Utf8

/-- `find_ascii_case_insensitive`, with `eq_ignore_ascii_case` on each window of bytes. -/
def findAsciiCaseInsensitive (haystack needle : List Char) : Option Nat :=
  if needle = [] then some 0
  else
    let haystackBytes := encode haystack
    let needleBytes := encode needle
    if haystackBytes.length < needleBytes.length then none
    else
      (windows needleBytes.length haystackBytes).findIdx? fun window =>
        decide (window.map lowerByte = needleBytes.map lowerByte)

/-- `parse_anchor_href` from the value on. -/
def parseHrefValue (value : List Char) : Option (Option (List Char)) :=
  if value = [] then some none
  else do
    let firstByte ← (encode value)[0]?
    let firstChar := Char.ofNat firstByte.toNat
    if firstChar = '"' ∨ firstChar = '\'' then
      let quote := firstChar
      let rest ← sliceFrom value 1
      match findChar (· == quote) rest with
      | none => some none
      | some stop => do
        let href ← sliceTo rest stop
        some (some (decodeBasicHtmlEntities href))
    else do
      let stop := (findChar (fun ch => isWhitespace ch || ch == '>') value).getD (byteLen value)
      let href ← sliceTo value stop
      some (some (decodeBasicHtmlEntities href))

def parseAnchorHref (openTag : List Char) : Option (Option (List Char)) :=
  match findStr "href".toList (toAsciiLowercase openTag) with
  | none => some none
  | some hrefIdx => do
    let value ← sliceFrom openTag (hrefIdx + byteLen "href".toList)
    let value := value.dropWhile isWhitespace
    if value.head? = some '=' then do
      let value ← sliceFrom value 1
      parseHrefValue (value.dropWhile isWhitespace)
    else some none

/-- What a turn of the anchor loop appends to `out`, with the next `cursor` unless it breaks. -/
structure Turn where
  out : List Char
  cursor : Option Nat
  deriving DecidableEq

/-- A turn of the loop of `replace_html_anchor_tags`. -/
def anchorTurn (input : List Char) (cursor : Nat) : Option Turn := do
  let rest ← sliceFrom input cursor
  match findAsciiCaseInsensitive rest "<a".toList with
  | none => some ⟨rest, none⟩
  | some anchorStartRel => do
    let anchorStart := cursor + anchorStartRel
    let before ← slice input cursor anchorStart
    let anchor ← sliceFrom input anchorStart
    match findChar (· == '>') anchor with
    | none => some ⟨before ++ anchor, none⟩
    | some openTagEndRel => do
      let openTagEnd := anchorStart + openTagEndRel
      let openTag ← slice input anchorStart (openTagEnd + 1)
      let innerStart := openTagEnd + 1
      let inner ← sliceFrom input innerStart
      match findAsciiCaseInsensitive inner "</a>".toList with
      | none => some ⟨before ++ anchor, none⟩
      | some closeTagRel => do
        let innerEnd := innerStart + closeTagRel
        let closeTagEnd := innerEnd + byteLen "</a>".toList
        let innerText ← slice input innerStart innerEnd
        let href ← parseAnchorHref openTag
        some ⟨before ++ (' ' :: href.getD innerText ++ [' ']), some closeTagEnd⟩

theorem lt_of_anchorTurn {input out : List Char} {cursor next : Nat}
    (hturn : anchorTurn input cursor = some ⟨out, some next⟩) : cursor < next := by
  unfold anchorTurn at hturn
  simp only [Option.bind_eq_bind, Option.bind_eq_some_iff] at hturn
  obtain ⟨rest, _, hturn⟩ := hturn
  split at hturn
  · cases hturn
  · simp only [Option.bind_eq_some_iff] at hturn
    obtain ⟨before, _, anchor, _, hturn⟩ := hturn
    split at hturn
    · cases hturn
    · simp only [Option.bind_eq_some_iff] at hturn
      obtain ⟨openTag, _, inner, _, hturn⟩ := hturn
      split at hturn
      · cases hturn
      · simp only [Option.bind_eq_some_iff] at hturn
        obtain ⟨innerText, _, href, _, hturn⟩ := hturn
        cases hturn
        omega

/-- The loop, from `cursor` on. -/
def replaceFrom (input : List Char) (cursor : Nat) : Option (List Char) :=
  if cursor < byteLen input then
    match _ : anchorTurn input cursor with
    | none => none
    | some ⟨out, none⟩ => some out
    | some ⟨out, some next⟩ => (replaceFrom input next).map fun rest => out ++ rest
  else some []
termination_by byteLen input - cursor
decreasing_by exact Nat.sub_lt_sub_left ‹_› (lt_of_anchorTurn ‹_›)

def replaceHtmlAnchorTags (input : List Char) : Option (List Char) := replaceFrom input 0

def splitTokenAffixes (token : List Char) : Option (List Char × List Char × List Char) :=
  let start := (findChar (fun c => !isLeadingPunctuation c) token).getD (byteLen token)
  let stop := (((charIndices token).reverse.find? fun entry => !isTrailingPunctuation entry.2).map fun entry =>
    entry.1 + entry.2.utf8Size).getD start
  if stop < start then some (token, [], [])
  else do
    let before ← sliceTo token start
    let core ← slice token start stop
    let after ← sliceFrom token stop
    some (before, core, after)

def normalizeTextTokenForTts (token : List Char) : Option (List Char × Option (List Char)) := do
  let (before, core, after) ← splitTokenAffixes token
  if core = [] then some (token, none)
  else
    match extractUrlHost core with
    | some hostname =>
      let spokenHost := hostnameForSpeech hostname
      some (before ++ spokenHost ++ after, some spokenHost)
    | none => some (token, none)

def analyzeTextMessageForTts (rawMessage : List Char) : Option TextMessageTtsAnalysis := do
  let withAnchorHrefs ← replaceHtmlAnchorTags rawMessage
  let decodedEntities := decodeBasicHtmlEntities (stripHtmlTags withAnchorHrefs)
  let normalizedTokens ← (words isWhitespace decodedEntities).mapM normalizeTextTokenForTts
  some
    { normalizedMessage := collapseWhitespace (join ' ' (normalizedTokens.map Prod.fst))
      linkHostsForSpeech := normalizedTokens.filterMap Prod.snd
      nonLinkTokenCount :=
        normalizedTokens.countP fun token => token.2.isNone && tokenHasSpokenContent token.1 }

def textMessagePhrase (senderName : Option String) (rawMessage : String) : Option String := do
  let sender := spokenSender senderName
  let analysis ← analyzeTextMessageForTts rawMessage.toList
  if analysis.nonLinkTokenCount = 0 ∧ analysis.linkHostsForSpeech ≠ [] then
    if analysis.linkHostsForSpeech.length = 1 then do
      let host ← analysis.linkHostsForSpeech[0]?
      some (sender ++ " posted a link to " ++ String.ofList host)
    else some (sender ++ " posted links to " ++ String.ofList (joinHumanList analysis.linkHostsForSpeech))
  else if analysis.normalizedMessage = [] then some (sender ++ " sent a message")
  else some (sender ++ " says: " ++ String.ofList analysis.normalizedMessage)

/-! ### Searches -/

variable {input haystack needle : List Char} {k : Nat}

theorem findAsciiCaseInsensitive_eq (hne : needle ≠ []) (hascii : ∀ c ∈ needle, c.utf8Size = 1)
    (haystack : List Char) : findAsciiCaseInsensitive haystack needle
      = (MumbleSip.findAsciiCaseInsensitive haystack needle).map (offset haystack) := by
  have hbytes : encode needle ≠ [] := by
    intro hnil
    have hpos := byteLen_pos hne
    rw [← length_encode, hnil, List.length_nil] at hpos
    exact Nat.lt_irrefl 0 hpos
  have hlower : ∀ c ∈ needle.map Char.toLower, c.utf8Size = 1 := by
    intro c hc
    obtain ⟨d, hd, rfl⟩ := List.mem_map.1 hc
    rw [utf8Size_toLower]
    exact hascii d hd
  have hfind := findIdx_windows lowerByte hbytes (encode haystack)
  rw [encode_toLower, encode_toLower, find_encode (List.map_eq_nil_iff.not.2 hne) hlower, findStr,
    funext (offset_toLower haystack)] at hfind
  unfold findAsciiCaseInsensitive
  rw [if_neg hne]
  by_cases hshort : (encode haystack).length < (encode needle).length
  · rw [windows_of_length_lt hshort] at hfind
    simp only [if_pos hshort]
    exact hfind
  · simp only [if_neg hshort]
    rw [encode_toLower]
    exact hfind

theorem ascii_of_all {s : List Char} (hall : (s.all fun c => c.utf8Size == 1) = true) :
    ∀ c ∈ s, c.utf8Size = 1 := by
  intro c hc
  exact eq_of_beq (List.all_eq_true.1 hall c hc)

theorem startTag_ascii : ∀ c ∈ "<a".toList, c.utf8Size = 1 := ascii_of_all (by decide)

theorem endTag_ascii : ∀ c ∈ "</a>".toList, c.utf8Size = 1 := ascii_of_all (by decide)

/-! ### The value of an anchor -/

theorem parseHrefValue_eq (value : List Char) :
    parseHrefValue value = some (MumbleSip.parseHrefValue value) := by
  cases value with
  | nil => rfl
  | cons quote rest =>
    obtain ⟨firstByte, hfirst, hquote⟩ := exists_firstByte quote rest
    have hiff : (Char.ofNat firstByte.toNat = '"' ∨ Char.ofNat firstByte.toNat = '\'')
        ↔ (quote = '"' ∨ quote = '\'') :=
      or_congr (hquote '"' (by decide)) (hquote '\'' (by decide))
    rw [parseHrefValue, if_neg (List.cons_ne_nil _ _), hfirst, Option.bind_eq_bind, Option.bind_some,
      MumbleSip.parseHrefValue]
    by_cases hq : quote = '"' ∨ quote = '\''
    · have hsize : quote.utf8Size = 1 := by
        rcases hq with rfl | rfl <;> decide
      have hchar : Char.ofNat firstByte.toNat = quote := (hquote quote hsize).2 rfl
      simp only [hchar, if_pos hq, sliceFrom_one hsize, Option.bind_eq_bind, Option.bind_some, findChar_eq,
        find_singleton]
      cases rest.findIdx? fun c => c == quote with
      | none => rfl
      | some stop =>
        simp only [Option.map_some, sliceTo_offset, Option.bind_some]
    · have hnot : ¬(Char.ofNat firstByte.toNat = '"' ∨ Char.ofNat firstByte.toNat = '\'') :=
        fun h => hq (hiff.1 h)
      simp only [if_neg hnot, if_neg hq, findChar_getD, sliceTo_offset, Option.bind_eq_bind, Option.bind_some]

theorem parseAnchorHref_eq (openTag : List Char) :
    parseAnchorHref openTag = some (MumbleSip.parseAnchorHref openTag) := by
  unfold parseAnchorHref MumbleSip.parseAnchorHref findStr
  cases hfind : find "href".toList (toAsciiLowercase openTag) with
  | none => rfl
  | some hrefIdx =>
    have hend : offset (toAsciiLowercase openTag) hrefIdx + byteLen "href".toList
        = offset openTag (hrefIdx + "href".toList.length) := by
      rw [offset_add_of_isPrefix (isPrefix_of_find hfind)]
      exact congrArg (· + _) (offset_toLower openTag hrefIdx)
    simp only [Option.map_some, hend, sliceFrom_offset, Option.bind_eq_bind, Option.bind_some]
    cases (openTag.drop (hrefIdx + "href".toList.length)).dropWhile isWhitespace with
    | nil => rfl
    | cons c value =>
      by_cases hc : c = '='
      · subst c
        simp only [List.head?_cons, if_true, sliceFrom_one (show '='.utf8Size = 1 by decide), Option.bind_some,
          parseHrefValue_eq]
      · have hhead : ¬ (c :: value).head? = some '=' := by
          rw [List.head?_cons, Option.some.injEq]
          exact hc
        rw [if_neg hhead]
        split
        · rename_i heq
          cases heq
          exact absurd rfl hc
        · rfl

/-! ### The anchor loop -/

theorem exists_cons_of_find {c : Char} {s : List Char} (h : find [c] s = some k) :
    ∃ rest, s.drop k = c :: rest := by
  obtain ⟨rest, hrest⟩ := isPrefix_of_find h
  exact ⟨rest, hrest.symm⟩

theorem offset_endTag {j i : Nat}
    (h : MumbleSip.findAsciiCaseInsensitive (input.drop j) "</a>".toList = some i) :
    offset input (j + i) + byteLen "</a>".toList = offset input (j + i + "</a>".toList.length) := by
  have hstarts := isPrefix_of_find h
  rw [toAsciiLowercase_endTag, toAsciiLowercase, List.map_drop, List.drop_drop] at hstarts
  exact (offset_add_of_isPrefix hstarts).symm

/-- A turn at a character either copies the rest, or it consumes an anchor and ends at a later character. -/
theorem anchorTurn_cases (input : List Char) (k : Nat) :
    (MumbleSip.anchorTurn (input.drop k) = none ∧
      anchorTurn input (offset input k) = some ⟨input.drop k, none⟩) ∨
    ∃ turn next, MumbleSip.anchorTurn (input.drop k) = some turn ∧
      next ≤ input.length ∧ input.drop next = turn.rest ∧
      anchorTurn input (offset input k)
        = some ⟨turn.before ++ (' ' :: turn.replacement ++ [' ']), some (offset input next)⟩ := by
  unfold anchorTurn MumbleSip.anchorTurn
  simp only [sliceFrom_offset, Option.bind_eq_bind, Option.bind_some,
    findAsciiCaseInsensitive_eq (show "<a".toList ≠ [] by decide) startTag_ascii]
  cases hstart : MumbleSip.findAsciiCaseInsensitive (input.drop k) "<a".toList with
  | none => exact .inl ⟨rfl, rfl⟩
  | some i =>
    have hcopy : (input.drop k).take i ++ input.drop (k + i) = input.drop k := by
      rw [← List.drop_drop, List.take_append_drop]
    simp only [Option.map_some, Option.bind_some, List.drop_drop, ← offset_add, slice_offset,
      sliceFrom_offset, findChar_eq, ← find_singleton]
    cases hopen : find ['>'] (input.drop (k + i)) with
    | none => exact .inl ⟨rfl, congrArg (fun out => some (Turn.mk out none)) hcopy⟩
    | some o =>
      obtain ⟨rest, hrest⟩ := exists_cons_of_find hopen
      rw [List.drop_drop] at hrest
      have hend : offset input (k + i + o) + 1 = offset input (k + i + (o + 1)) :=
        (offset_succ_of_drop hrest (by decide)).symm
      simp only [Option.map_some, Option.bind_some, ← offset_add, hend, slice_offset, sliceFrom_offset,
        findAsciiCaseInsensitive_eq (show "</a>".toList ≠ [] by decide) endTag_ascii]
      cases hclose : MumbleSip.findAsciiCaseInsensitive (input.drop (k + i + (o + 1))) "</a>".toList with
      | none => exact .inl ⟨rfl, congrArg (fun out => some (Turn.mk out none)) hcopy⟩
      | some j =>
        have hlength := length_le_of_find (by decide) hclose
        simp only [toAsciiLowercase, List.length_map, List.length_drop] at hlength
        simp only [Option.map_some, Option.bind_some, ← offset_add, slice_offset, parseAnchorHref_eq,
          offset_endTag hclose]
        refine .inr ⟨_, k + i + (o + 1) + j + "</a>".toList.length, rfl, ?_, ?_, rfl⟩
        · have htag : 0 < "</a>".toList.length := by decide
          omega
        · rw [Nat.add_assoc _ j]

theorem replaceFrom_eq {cursor : Nat} (hcursor : cursor < byteLen input) {out : List Char} {next : Option Nat}
    (hturn : anchorTurn input cursor = some ⟨out, next⟩) : replaceFrom input cursor
      = (next.elim (some []) (replaceFrom input)).map fun rest => out ++ rest := by
  rw [replaceFrom, if_pos hcursor]
  split
  · rename_i hnone
    rw [hturn] at hnone
    cases hnone
  · rename_i hlast
    rw [hturn] at hlast
    cases hlast
    rw [Option.elim_none, Option.map_some, List.append_nil]
  · rename_i hgoes
    rw [hturn] at hgoes
    cases hgoes
    rfl

/-- Every slice of the loop exists, and what it makes of the input from a character on is what the characters
give. -/
theorem replaceFrom_offset (hk : k ≤ input.length) :
    replaceFrom input (offset input k) = some (MumbleSip.replaceHtmlAnchorTags (input.drop k)) := by
  induction hn : input.length - k using Nat.strong_induction_on generalizing k with
  | _ n ih =>
    by_cases hend : k = input.length
    · subst k
      rw [replaceFrom, offset_length, if_neg (Nat.lt_irrefl _), List.drop_length,
        MumbleSip.replaceHtmlAnchorTags, if_pos rfl]
    · have hlt : offset input k < byteLen input := by
        rw [← offset_length]
        exact offset_lt (by omega) (Nat.le_refl _)
      rcases anchorTurn_cases input k with ⟨hlast, hturn⟩ | ⟨turn, next, hsome, hnext, hrest, hturn⟩
      · rw [replaceFrom_eq hlt hturn, replaceHtmlAnchorTags_of_none hlast, Option.elim_none, Option.map_some,
          List.append_nil]
      · have hshorter := length_rest_lt hsome
        rw [← hrest, List.length_drop, List.length_drop] at hshorter
        rw [replaceFrom_eq hlt hturn, replaceHtmlAnchorTags_of_some hsome, Option.elim_some,
          ih (input.length - next) (by omega) hnext rfl, hrest, Option.map_some]
        simp only [List.append_assoc, List.cons_append, List.nil_append]

theorem replaceHtmlAnchorTags_eq (input : List Char) :
    replaceHtmlAnchorTags input = some (MumbleSip.replaceHtmlAnchorTags input) :=
  replaceFrom_offset (Nat.zero_le _)

/-! ### Tokens -/

theorem offset_lt_iff {s : List Char} {i j : Nat} (hi : i ≤ s.length) : offset s j < offset s i ↔ j < i := by
  constructor
  · intro h
    by_contra hle
    exact Nat.not_lt_of_le (offset_mono (Nat.not_lt.1 hle)) h
  · intro h
    exact offset_lt h hi

theorem splitTokenAffixes_eq (token : List Char) :
    splitTokenAffixes token = some (MumbleSip.splitTokenAffixes token) := by
  unfold splitTokenAffixes MumbleSip.splitTokenAffixes
  simp only [findChar_getD, find_reverse_charIndices fun c => !isTrailingPunctuation c]
  generalize hstart : (token.findIdx fun c => !isLeadingPunctuation c) = start
  have hle : start ≤ token.length := hstart ▸ List.findIdx_le_length
  have hstop : ((token.reverse.findIdx? fun c => !isTrailingPunctuation c).map fun i =>
      offset token (token.length - i)).getD (offset token start)
        = offset token (((token.reverse.findIdx? fun c => !isTrailingPunctuation c).map fun i =>
          token.length - i).getD start) := by
    cases token.reverse.findIdx? fun c => !isTrailingPunctuation c <;> rfl
  rw [hstop]
  generalize ((token.reverse.findIdx? fun c => !isTrailingPunctuation c).map fun i =>
    token.length - i).getD start = stop
  by_cases hcross : stop < start
  · rw [if_pos hcross, if_pos ((offset_lt_iff hle).2 hcross)]
  · obtain ⟨n, rfl⟩ := Nat.exists_eq_add_of_le (Nat.not_lt.1 hcross)
    have hcore : (token.take (start + n)).drop start = (token.drop start).take n := by
      rw [List.drop_take, Nat.add_sub_cancel_left]
    rw [if_neg hcross, if_neg (hcross ∘ (offset_lt_iff hle).1), sliceTo_offset, slice_offset, sliceFrom_offset,
      hcore]
    rfl

theorem head_drop_findIdx {α : Type} {p : α → Bool} {l : List α} {n : Nat} {a : α}
    (ha : ((l.take n).drop (l.findIdx p)).head? = some a) : p a = true := by
  rw [List.head?_drop, List.getElem?_take] at ha
  split at ha
  · exact List.findIdx_of_getElem?_eq_some ha
  · cases ha

theorem getLast_take_findIdx {α : Type} {p : α → Bool} {l : List α} {i k : Nat} {a : α}
    (hi : l.reverse.findIdx? p = some i) (ha : ((l.take (l.length - i)).drop k).getLast? = some a) :
    p a = true := by
  obtain ⟨hlt, hlast, _⟩ := List.findIdx?_eq_some_iff_getElem.1 hi
  rw [List.length_reverse] at hlt
  have hindex : l[l.length - i - 1]? = some l.reverse[i] := by
    rw [← List.getElem?_eq_getElem, List.getElem?_reverse hlt]
    congr 1
    omega
  rw [List.getLast?_drop, List.getLast?_take, hindex, Option.some_or] at ha
  split at ha
  · cases ha
  · split at ha
    · cases ha
    · cases ha
      exact hlast

theorem getElem_of_findIdx?_reverse {α : Type} {p : α → Bool} {l : List α} {i k : Nat}
    (hi : l.reverse.findIdx? p = some i) (hk : k < l.length) (hle : l.length - i ≤ k) : p l[k] = false := by
  obtain ⟨hlt, _, hbehind⟩ := List.findIdx?_eq_some_iff_getElem.1 hi
  have hlast := hbehind (l.length - 1 - k) (by omega)
  rw [List.getElem_reverse] at hlast
  have hindex : l.length - 1 - (l.length - 1 - k) = k := by omega
  simp only [hindex] at hlast
  exact Bool.eq_false_of_not_eq_true hlast

/-- Leading punctuation and then trailing punctuation, and nothing between them. -/
def PunctuationOnly (token : List Char) : Prop :=
  ∃ u v, token = u ++ v ∧ (∀ c ∈ u, isLeadingPunctuation c = true) ∧ ∀ c ∈ v, isTrailingPunctuation c = true

/-- The last character that is no trailing punctuation lies within the leading punctuation. -/
theorem punctuationOnly_iff_le {token : List Char} {i : Nat}
    (hlast : token.reverse.findIdx? (fun c => !isTrailingPunctuation c) = some i) :
    PunctuationOnly token ↔ token.length - i ≤ token.findIdx fun c => !isLeadingPunctuation c := by
  constructor
  · rintro ⟨u, v, rfl, hu, hv⟩
    have hstop : (u ++ v).length - i ≤ u.length := by
      by_contra hlong
      obtain ⟨hlt, hend, _⟩ := List.findIdx?_eq_some_iff_getElem.1 hlast
      rw [List.length_reverse] at hlt
      rw [List.getElem_reverse, List.getElem_append_right (by omega), hv _ (List.getElem_mem _)] at hend
      cases hend
    have hstart : u.length ≤ (u ++ v).findIdx fun c => !isLeadingPunctuation c := by
      by_contra hshort
      have hlt : (u ++ v).findIdx (fun c => !isLeadingPunctuation c) < (u ++ v).length := by
        rw [List.length_append]
        omega
      have hfirst := List.findIdx_getElem (w := hlt)
      rw [List.getElem_append_left (by omega), hu _ (List.getElem_mem _)] at hfirst
      cases hfirst
    exact hstop.trans hstart
  · intro hle
    generalize hstart : (token.findIdx fun c => !isLeadingPunctuation c) = start at hle
    refine ⟨token.take start, token.drop start, (List.take_append_drop _ _).symm, fun c hc => ?_, fun c hc => ?_⟩
    · obtain ⟨k, hk, rfl⟩ := List.mem_take_iff_getElem.1 hc
      have hlt : k < token.findIdx fun c => !isLeadingPunctuation c := by
        rw [hstart]
        omega
      have hquiet := List.not_of_lt_findIdx hlt
      rwa [Bool.not_eq_false'] at hquiet
    · obtain ⟨k, hk, rfl⟩ := List.mem_drop_iff_getElem.1 hc
      have hquiet := getElem_of_findIdx?_reverse hlast (show start + k < token.length by omega) (by omega)
      rwa [Bool.not_eq_false'] at hquiet

/-- The core is empty if and only if the token is leading punctuation and then trailing punctuation. -/
theorem core_eq_nil_iff {token before core after : List Char}
    (h : MumbleSip.splitTokenAffixes token = (before, core, after)) : core = [] ↔ PunctuationOnly token := by
  unfold MumbleSip.splitTokenAffixes at h
  cases hlast : token.reverse.findIdx? fun c => !isTrailingPunctuation c with
  | none =>
    simp only [hlast, Option.map_none, Option.getD_none, Nat.lt_irrefl, if_false] at h
    cases h
    rw [List.drop_take, Nat.sub_self, List.take_zero]
    refine iff_of_true rfl ⟨[], token, rfl, List.forall_mem_nil _, fun c hc => ?_⟩
    have hquiet := List.findIdx?_eq_none_iff.1 hlast c (List.mem_reverse.2 hc)
    rwa [Bool.not_eq_false'] at hquiet
  | some i =>
    simp only [hlast, Option.map_some, Option.getD_some] at h
    rw [punctuationOnly_iff_le hlast]
    split at h
    · rename_i hcross
      cases h
      exact iff_of_true rfl (Nat.le_of_lt hcross)
    · cases h
      rw [List.drop_eq_nil_iff, List.length_take]
      omega

/-- The pieces of a token make it up, and what lies between the punctuation has none at its ends. -/
theorem splitTokenAffixes_pieces {token before core after : List Char}
    (h : MumbleSip.splitTokenAffixes token = (before, core, after)) : before ++ core ++ after = token ∧
      (∀ c, core.head? = some c → isLeadingPunctuation c = false) ∧
      ∀ c, core.getLast? = some c → isTrailingPunctuation c = false := by
  unfold MumbleSip.splitTokenAffixes at h
  generalize hstart : (token.findIdx fun c => !isLeadingPunctuation c) = start at h
  cases hlast : token.reverse.findIdx? fun c => !isTrailingPunctuation c with
  | none =>
    simp only [hlast, Option.map_none, Option.getD_none, Nat.lt_irrefl, if_false] at h
    cases h
    rw [List.drop_take, Nat.sub_self, List.take_zero, List.append_nil, List.take_append_drop]
    refine ⟨rfl, ?_, ?_⟩ <;> intro c hc <;> cases hc
  | some i =>
    simp only [hlast, Option.map_some, Option.getD_some] at h
    by_cases hcross : token.length - i < start
    · rw [if_pos hcross] at h
      cases h
      refine ⟨by rw [List.append_nil, List.append_nil], ?_, ?_⟩ <;> intro c hc <;> cases hc
    · rw [if_neg hcross] at h
      cases h
      have hfront : token.take start = (token.take (token.length - i)).take start := by
        rw [List.take_take, Nat.min_eq_left (Nat.not_lt.1 hcross)]
      refine ⟨by rw [hfront, List.take_append_drop, List.take_append_drop], ?_, ?_⟩
      · intro c hc
        rw [← hstart] at hc
        have hfirst := head_drop_findIdx hc
        rwa [Bool.not_eq_true'] at hfirst
      · intro c hc
        have hend := getLast_take_findIdx hlast hc
        rwa [Bool.not_eq_true'] at hend

/-! ### Messages -/

theorem normalizeTextTokenForTts_eq (token : List Char) :
    normalizeTextTokenForTts token = some (MumbleSip.normalizeTextTokenForTts token) := by
  unfold normalizeTextTokenForTts MumbleSip.normalizeTextTokenForTts
  rw [splitTokenAffixes_eq, Option.bind_eq_bind, Option.bind_some]
  obtain ⟨before, core, after⟩ := MumbleSip.splitTokenAffixes token
  simp only
  split
  · rfl
  · cases extractUrlHost core <;> rfl

theorem analyzeTextMessageForTts_eq (rawMessage : List Char) :
    analyzeTextMessageForTts rawMessage = some (MumbleSip.analyzeTextMessageForTts rawMessage) := by
  have hnormalize : ∀ tokens : List (List Char), tokens.mapM normalizeTextTokenForTts
      = some (tokens.map MumbleSip.normalizeTextTokenForTts) := by
    intro tokens
    rw [funext normalizeTextTokenForTts_eq]
    exact List.mapM_pure
  unfold analyzeTextMessageForTts
  simp only [replaceHtmlAnchorTags_eq, hnormalize, Option.bind_eq_bind, Option.bind_some]
  rfl

theorem textMessagePhrase_eq (senderName : Option String) (rawMessage : String) :
    textMessagePhrase senderName rawMessage = some (MumbleSip.textMessagePhrase senderName rawMessage) := by
  unfold textMessagePhrase MumbleSip.textMessagePhrase
  rw [analyzeTextMessageForTts_eq, Option.bind_eq_bind, Option.bind_some]
  generalize MumbleSip.analyzeTextMessageForTts rawMessage.toList = analysis
  by_cases hlinks : analysis.nonLinkTokenCount = 0 ∧ analysis.linkHostsForSpeech ≠ []
  · simp only [if_pos hlinks]
    cases hhosts : analysis.linkHostsForSpeech with
    | nil => exact absurd hhosts hlinks.2
    | cons host hosts =>
      cases hosts with
      | nil =>
        simp only [List.length_singleton, if_true, List.getElem?_cons_zero, Option.bind_eq_bind,
          Option.bind_some]
      | cons second hosts =>
        have hmany : ¬ (host :: second :: hosts).length = 1 := by
          rw [List.length_cons, List.length_cons]
          omega
        rw [if_neg hmany]
  · simp only [if_neg hlinks]
    split <;> rfl

end MumbleSip.Bytewise

namespace MumbleSip

open Utf8

/-- No slice of a message panics, whatever the message and the sender, and what comes out is what the characters
give. From every position that it comes to, the anchor loop goes on to a later one. The pieces of a token are the
token again, and its core neither starts with leading nor ends with trailing punctuation; it is empty for the
tokens without anything else: leading punctuation and then trailing punctuation. -/
theorem slices_exist (senderName : Option String) (rawMessage : String) :
    Bytewise.textMessagePhrase senderName rawMessage = some (textMessagePhrase senderName rawMessage) ∧
    (∀ input : List Char, Bytewise.replaceHtmlAnchorTags input = some (replaceHtmlAnchorTags input) ∧
      ∀ k ≤ input.length, ∃ turn, Bytewise.anchorTurn input (offset input k) = some turn ∧
        ∀ next, turn.cursor = some next →
          offset input k < next ∧ ∃ j ≤ input.length, next = offset input j) ∧
    (∀ openTag, Bytewise.parseAnchorHref openTag = some (parseAnchorHref openTag)) ∧
    ∀ token, ∃ before core after, Bytewise.splitTokenAffixes token = some (before, core, after) ∧
      before ++ core ++ after = token ∧
      (core = [] ↔ Bytewise.PunctuationOnly token) ∧
      (∀ c, core.head? = some c → isLeadingPunctuation c = false) ∧
      ∀ c, core.getLast? = some c → isTrailingPunctuation c = false := by
  refine ⟨Bytewise.textMessagePhrase_eq senderName rawMessage, ?_, Bytewise.parseAnchorHref_eq, ?_⟩
  · intro input
    refine ⟨Bytewise.replaceHtmlAnchorTags_eq input, ?_⟩
    intro k _
    rcases Bytewise.anchorTurn_cases input k with ⟨_, hturn⟩ | ⟨_, next, _, hnext, _, hturn⟩
    · refine ⟨_, hturn, ?_⟩
      intro next hnone
      cases hnone
    · refine ⟨_, hturn, ?_⟩
      intro next' hsome
      cases hsome
      exact ⟨Bytewise.lt_of_anchorTurn hturn, next, hnext, rfl⟩
  · intro token
    cases hpieces : splitTokenAffixes token with
    | mk before pieces =>
      obtain ⟨core, after⟩ := pieces
      obtain ⟨hconcat, hends⟩ := Bytewise.splitTokenAffixes_pieces hpieces
      refine ⟨before, core, after, ?_, hconcat, Bytewise.core_eq_nil_iff hpieces, hends⟩
      rw [Bytewise.splitTokenAffixes_eq, hpieces]

end MumbleSip
