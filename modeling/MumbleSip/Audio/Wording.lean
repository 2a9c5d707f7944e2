import MumbleSip.Audio.Links

/-!
# The wording for links

A message of links is not read out, its hosts are listed. Whether it is one is decided by a count of the other
tokens, which passes over those without an ASCII letter or digit.
-/

namespace MumbleSip

open Text

variable {senderName : Option String} {rawMessage : String} {letter : Char → Bool}

def IsLink (token : List Char) : Prop := (normalizeTextTokenForTts token).2 ≠ none

/-- The hosts of the links, as they are spoken. -/
def recognizedHosts (tokens : List (List Char)) : List (List Char) :=
  tokens.filterMap fun token => (normalizeTextTokenForTts token).2

/-- The phrase says that links were posted, and then `rest`. -/
def PostedLinks (senderName : Option String) (phrase rest : String) : Prop :=
  phrase = spokenSender senderName ++ " posted a link to " ++ rest ∨
    phrase = spokenSender senderName ++ " posted links to " ++ rest

/-- The items, with a comma or `and` between. -/
inductive Listing : List (List Char) → List Char → Prop
  | one (item : List Char) : Listing [item] item
  | more {items : List (List Char)} {rest : List Char} (item between : List Char) :
    between ∈ [", ".toList, " and ".toList, ", and ".toList] → Listing items rest →
      Listing (item :: items) (item ++ (between ++ rest))

/-- Link wording never hides words, for what counts as a letter or a digit. -/
structure NeverHides (letter : Char → Bool) (senderName : Option String) (rawMessage : String) : Prop where
  onlyLinks : (∃ rest, PostedLinks senderName (textMessagePhrase senderName rawMessage) rest) →
    ∀ token ∈ textMessageTokens rawMessage.toList, token.any letter = true → IsLink token
  hosts : ∀ rest, PostedLinks senderName (textMessagePhrase senderName rawMessage) rest →
    Listing (recognizedHosts (textMessageTokens rawMessage.toList)) rest.toList
  text : (¬∃ rest, PostedLinks senderName (textMessagePhrase senderName rawMessage) rest) →
    ContainsInOrder ((textMessageTokens rawMessage.toList).map fun token => (normalizeTextTokenForTts token).1)
      (textMessagePhrase senderName rawMessage).toList

/-! ### What is counted -/

theorem linkHostsForSpeech_eq (rawMessage : List Char) :
    (analyzeTextMessageForTts rawMessage).linkHostsForSpeech = recognizedHosts (textMessageTokens rawMessage) := by
  simp only [analyzeTextMessageForTts, recognizedHosts, List.filterMap_map]
  rfl

theorem linkHostsForSpeech_eq_nil_iff (rawMessage : List Char) :
    (analyzeTextMessageForTts rawMessage).linkHostsForSpeech = [] ↔
      ∀ token ∈ textMessageTokens rawMessage, ¬IsLink token := by
  rw [linkHostsForSpeech_eq, recognizedHosts, List.filterMap_eq_nil_iff]
  exact forall₂_congr fun token _ => not_not.symm

theorem nonLinkTokenCount_eq_zero_iff (rawMessage : List Char) :
    (analyzeTextMessageForTts rawMessage).nonLinkTokenCount = 0 ↔
      ∀ token ∈ textMessageTokens rawMessage, ¬IsLink token → tokenHasSpokenContent token = false := by
  simp only [analyzeTextMessageForTts, List.countP_map, List.countP_eq_zero]
  apply forall₂_congr
  intro token _
  rw [IsLink, not_not, Function.comp_apply, Bool.and_eq_true, Option.isNone_iff_eq_none, not_and,
    Bool.not_eq_true]
  apply forall_congr'
  intro hnone
  rw [normalizeTextTokenForTts_of_none hnone]

/-- Every token is spoken, in the order of the message. -/
theorem containsInOrder_normalizedMessage (rawMessage : List Char) :
    ContainsInOrder ((textMessageTokens rawMessage).map fun token => (normalizeTextTokenForTts token).1)
      (analyzeTextMessageForTts rawMessage).normalizedMessage := by
  have hsep : isWhitespace ' ' = true := by decide
  have hspoken : (analyzeTextMessageForTts rawMessage).normalizedMessage = join ' '
      ((textMessageTokens rawMessage).map fun token =>
        words isWhitespace (normalizeTextTokenForTts token).1).flatten := by
    rw [← List.flatMap_def]
    simp only [analyzeTextMessageForTts, collapseWhitespace, List.map_map, words_join_flatMap hsep,
      List.flatMap_map]
    rfl
  have hjoin : (textMessageTokens rawMessage).map (fun token => (normalizeTextTokenForTts token).1) =
      ((textMessageTokens rawMessage).map fun token =>
        words isWhitespace (normalizeTextTokenForTts token).1).map (join ' ') := by
    rw [List.map_map]
    apply List.map_congr_left
    intro token htoken
    obtain ⟨ws, hws, heq⟩ := exists_join_normalizeTextTokenForTts (isWord_of_mem_words htoken)
    rw [Function.comp_apply, heq, words_join hsep hws]
  rw [hspoken, hjoin]
  exact containsInOrder_join ' ' _

/-! ### What is listed -/

theorem listing_zipIdx (last : Nat) (items : List (List Char)) (item : List Char) (k : Nat) :
    ∃ between rest, between ∈ [", ".toList, " and ".toList, ", and ".toList] ∧ Listing (item :: items) rest ∧
      ((item :: items).zipIdx (k + 1)).flatMap (fun p =>
        (if p.2 = 0 then [] else if p.2 = last then ", and ".toList else ", ".toList) ++ p.1)
        = between ++ rest := by
  have hbetween : (if k + 1 = 0 then [] else if k + 1 = last then ", and ".toList else ", ".toList) ∈
      [", ".toList, " and ".toList, ", and ".toList] := by
    rw [if_neg (Nat.succ_ne_zero k)]
    split
    · exact List.mem_cons_of_mem _ (List.mem_cons_of_mem _ List.mem_cons_self)
    · exact List.mem_cons_self
  induction items generalizing item k with
  | nil =>
    refine ⟨_, item, hbetween, .one item, ?_⟩
    rw [List.zipIdx_cons, List.flatMap_cons, List.zipIdx_nil, List.flatMap_nil, List.append_nil]
  | cons item' items ih =>
    have hnext : (if k + 1 + 1 = 0 then [] else if k + 1 + 1 = last then ", and ".toList else ", ".toList) ∈
        [", ".toList, " and ".toList, ", and ".toList] := by
      rw [if_neg (Nat.succ_ne_zero (k + 1))]
      split
      · exact List.mem_cons_of_mem _ (List.mem_cons_of_mem _ List.mem_cons_self)
      · exact List.mem_cons_self
    obtain ⟨between, rest, hmem, hlisting, heq⟩ := ih item' (k + 1) hnext
    refine ⟨_, item ++ (between ++ rest), hbetween, .more item between hmem hlisting, ?_⟩
    rw [List.zipIdx_cons, List.flatMap_cons, heq, List.append_assoc]

theorem listing_joinHumanList {hosts : List (List Char)} (hne : hosts ≠ []) :
    Listing hosts (joinHumanList hosts) := by
  rcases hosts with - | ⟨first, - | ⟨second, - | ⟨third, hosts⟩⟩⟩
  · exact absurd rfl hne
  · exact .one first
  · have hand : " and ".toList ∈ [", ".toList, " and ".toList, ", and ".toList] :=
      List.mem_cons_of_mem _ List.mem_cons_self
    have hlisting := Listing.more first _ hand (.one second)
    rw [← List.append_assoc] at hlisting
    exact hlisting
  · obtain ⟨between, rest, hmem, hlisting, heq⟩ :=
      listing_zipIdx ((first :: second :: third :: hosts).length - 1) (third :: hosts) second 0
    have hjoin : joinHumanList (first :: second :: third :: hosts) = first ++ (between ++ rest) := by
      rw [← heq]
      rfl
    rw [hjoin]
    exact .more first between hmem hlisting

/-! ### What is said -/

theorem phrase_ne {sender middle middle' rest rest' : String} (k : Nat) (hk : k ≤ middle.toList.length)
    (hk' : k ≤ middle'.toList.length) (hne : middle.toList.take k ≠ middle'.toList.take k) :
    sender ++ middle ++ rest ≠ sender ++ middle' ++ rest' := by
  intro heq
  have hlist := congrArg String.toList heq
  simp only [String.toList_append, List.append_assoc] at hlist
  have htake := congrArg (List.take k) (List.append_cancel_left hlist)
  rw [List.take_append_of_le_length hk, List.take_append_of_le_length hk'] at htake
  exact hne htake

theorem phrase_inj {sender middle rest rest' : String}
    (heq : sender ++ middle ++ rest = sender ++ middle ++ rest') : rest = rest' := by
  have hlist := congrArg String.toList heq
  simp only [String.toList_append] at hlist
  exact String.toList_injective (List.append_cancel_left hlist)

theorem not_postedLinks {middle : String} (rest : String) (hk : 2 ≤ middle.toList.length)
    (hne : middle.toList.take 2 ≠ [' ', 'p']) (rest' : String) :
    ¬PostedLinks senderName (spokenSender senderName ++ middle ++ rest) rest' := by
  have hone : middle.toList.take 2 ≠ " posted a link to ".toList.take 2 := by
    rw [show " posted a link to ".toList.take 2 = [' ', 'p'] by decide]
    exact hne
  have hmany : middle.toList.take 2 ≠ " posted links to ".toList.take 2 := by
    rw [show " posted links to ".toList.take 2 = [' ', 'p'] by decide]
    exact hne
  rintro (heq | heq)
  · exact phrase_ne 2 hk (by decide) hone heq
  · exact phrase_ne 2 hk (by decide) hmany heq

/-- There is a link, and nothing else that is counted. -/
def OnlyLinks (rawMessage : List Char) : Prop :=
  (∃ token ∈ textMessageTokens rawMessage, IsLink token) ∧
    ∀ token ∈ textMessageTokens rawMessage, ¬IsLink token → tokenHasSpokenContent token = false

theorem onlyLinks_iff (rawMessage : List Char) : OnlyLinks rawMessage ↔
    (analyzeTextMessageForTts rawMessage).nonLinkTokenCount = 0 ∧
      (analyzeTextMessageForTts rawMessage).linkHostsForSpeech ≠ [] := by
  rw [OnlyLinks, nonLinkTokenCount_eq_zero_iff, Ne, linkHostsForSpeech_eq_nil_iff, and_comm]
  apply and_congr_right
  intro _
  constructor
  · rintro ⟨token, htoken, hlink⟩ hnone
    exact hnone token htoken hlink
  · intro hsome
    by_contra hnone
    exact hsome fun token htoken hlink => hnone ⟨token, htoken, hlink⟩

theorem OnlyLinks.phrase (h : OnlyLinks rawMessage.toList) :
    ∃ rest, PostedLinks senderName (textMessagePhrase senderName rawMessage) rest := by
  obtain ⟨hcount, hhosts⟩ := (onlyLinks_iff _).1 h
  unfold textMessagePhrase
  simp only [if_pos (And.intro hcount hhosts)]
  split
  · exact ⟨_, .inl rfl⟩
  · exact ⟨_, .inr rfl⟩

theorem OnlyLinks.listing (h : OnlyLinks rawMessage.toList) {rest : String}
    (hrest : PostedLinks senderName (textMessagePhrase senderName rawMessage) rest) :
    Listing (recognizedHosts (textMessageTokens rawMessage.toList)) rest.toList := by
  obtain ⟨hcount, hhosts⟩ := (onlyLinks_iff _).1 h
  have hdiffer : " posted a link to ".toList.take 9 ≠ " posted links to ".toList.take 9 := by decide
  rw [linkHostsForSpeech_eq] at hhosts
  unfold textMessagePhrase at hrest
  simp only [linkHostsForSpeech_eq, if_pos (And.intro hcount hhosts)] at hrest
  split at hrest
  · rename_i host hone
    rw [hone]
    rcases hrest with heq | heq
    · rw [← phrase_inj heq, String.toList_ofList]
      exact .one host
    · exact absurd heq (phrase_ne 9 (by decide) (by decide) hdiffer)
  · rcases hrest with heq | heq
    · exact absurd heq.symm (phrase_ne 9 (by decide) (by decide) hdiffer)
    · rw [← phrase_inj heq, String.toList_ofList]
      exact listing_joinHumanList hhosts

theorem textMessagePhrase_of_not_onlyLinks (senderName : Option String) (h : ¬OnlyLinks rawMessage.toList) :
    (∀ rest, ¬PostedLinks senderName (textMessagePhrase senderName rawMessage) rest) ∧
      ContainsInOrder
        ((textMessageTokens rawMessage.toList).map fun token => (normalizeTextTokenForTts token).1)
        (textMessagePhrase senderName rawMessage).toList := by
  have htext := containsInOrder_normalizedMessage rawMessage.toList
  rw [onlyLinks_iff] at h
  unfold textMessagePhrase
  simp only [if_neg h]
  split
  · rename_i hempty
    rw [hempty] at htext
    refine ⟨fun rest => ?_, ?_⟩
    · have hphrase : ¬PostedLinks senderName (spokenSender senderName ++ " sent a message" ++ "") rest :=
        not_postedLinks "" (by decide) (by decide) rest
      rwa [String.append_empty] at hphrase
    · have hlong := htext.append_left (spokenSender senderName ++ " sent a message").toList
      rwa [List.append_nil] at hlong
  · refine ⟨fun rest => not_postedLinks _ (by decide) (by decide) rest, ?_⟩
    rw [String.toList_append, String.toList_ofList]
    exact htext.append_left _

/-- The wording for links hides words exactly if there is a link, a token that has letters or digits but is no
link, and no such token that has an ASCII letter or digit. -/
theorem textMessagePhrase_neverHides_iff (letter : Char → Bool) (senderName : Option String)
    (rawMessage : String) : NeverHides letter senderName rawMessage ↔
      (∀ token ∈ textMessageTokens rawMessage.toList, ¬IsLink token) ∨
      (∃ token ∈ textMessageTokens rawMessage.toList, ¬IsLink token ∧ tokenHasSpokenContent token = true) ∨
      ∀ token ∈ textMessageTokens rawMessage.toList, ¬IsLink token → token.any letter = false := by
  by_cases honly : OnlyLinks rawMessage.toList
  · have hphrase : ∃ rest, PostedLinks senderName (textMessagePhrase senderName rawMessage) rest := honly.phrase
    have hhosts : ∀ rest, PostedLinks senderName (textMessagePhrase senderName rawMessage) rest →
        Listing (recognizedHosts (textMessageTokens rawMessage.toList)) rest.toList :=
      fun rest hrest => honly.listing hrest
    obtain ⟨⟨link, hlink, hislink⟩, hnone⟩ := honly
    constructor
    · intro hnever
      refine .inr (.inr fun token htoken hnot => ?_)
      cases hany : token.any letter with
      | false => rfl
      | true => exact absurd (hnever.onlyLinks hphrase token htoken hany) hnot
    · rintro (hno | ⟨token, htoken, hnot, hspoken⟩ | hsilent)
      · exact absurd hislink (hno link hlink)
      · rw [hnone token htoken hnot] at hspoken
        cases hspoken
      · refine ⟨fun _ token htoken hany => ?_, hhosts, fun hnot => absurd hphrase hnot⟩
        by_contra hnot
        rw [hsilent token htoken hnot] at hany
        cases hany
  · obtain ⟨hnot, htext⟩ := textMessagePhrase_of_not_onlyLinks senderName honly
    refine iff_of_true ⟨?_, fun rest hrest => absurd hrest (hnot rest), fun _ => htext⟩ ?_
    · rintro ⟨rest, hrest⟩
      exact absurd hrest (hnot rest)
    · by_contra hcond
      rw [not_or, not_or] at hcond
      obtain ⟨hlinks, hspoken, _⟩ := hcond
      apply honly
      constructor
      · by_contra hnone
        exact hlinks fun token htoken hlink => hnone ⟨token, htoken, hlink⟩
      · intro token htoken hnot
        cases hcontent : tokenHasSpokenContent token with
        | false => rfl
        | true => exact absurd ⟨token, htoken, hnot, hcontent⟩ hspoken

/-- Words of another script are dropped from a message with a link. -/
theorem foreign_word_hidden : ¬∃ letter : Char → Bool, letter 'п' = true ∧
    NeverHides letter (some "Sam") "привет https://x.org" := by
  rintro ⟨letter, hletter, hnever⟩
  have htokens : textMessageTokens "привет https://x.org".toList =
      ["привет".toList, "https://x.org".toList] := by decide +kernel
  have hphrase : textMessagePhrase (some "Sam") "привет https://x.org" = "Sam posted a link to x dot org" := by
    decide +kernel
  have hnot : (normalizeTextTokenForTts "привет".toList).2 = none := by decide
  have hword : "привет".toList = 'п' :: "ривет".toList := by decide
  have hany : "привет".toList.any letter = true := by
    rw [hword, List.any_cons, hletter, Bool.true_or]
  have hposted : PostedLinks (some "Sam") (textMessagePhrase (some "Sam") "привет https://x.org") "x dot org" := by
    rw [hphrase]
    exact .inl (by decide)
  have hmem : "привет".toList ∈ textMessageTokens "привет https://x.org".toList := by
    rw [htokens]
    exact List.mem_cons_self
  exact hnever.onlyLinks ⟨_, hposted⟩ _ hmem hany hnot

end MumbleSip
