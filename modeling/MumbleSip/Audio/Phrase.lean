import MumbleSip.Lib.Replace
import MumbleSip.Lib.Words
import MumbleSip.Mumble.Control

/-!
# What is spoken of a message

The phrases of `tts.rs`: the announcement of a channel, and what is said of a text message, which the server
sends as HTML. A string is the list of its characters, and a position in it counts characters.
-/

namespace MumbleSip

open Text

/-! ### Links and tags -/

/-- `str::to_ascii_lowercase`. -/
def toAsciiLowercase (s : List Char) : List Char := s.map Char.toLower

def findAsciiCaseInsensitive (haystack needle : List Char) : Option Nat :=
  find (toAsciiLowercase needle) (toAsciiLowercase haystack)

/-- The entities, in the order in which they are replaced. -/
def basicEntities : List (List Char × Char) :=
  [("&quot;".toList, '"'), ("&#39;".toList, '\''), ("&apos;".toList, '\''), ("&lt;".toList, '<'),
    ("&gt;".toList, '>'), ("&amp;".toList, '&')]

def decodeBasicHtmlEntities (input : List Char) : List Char :=
  basicEntities.foldl (fun text entity => replace entity.1 [entity.2] text) input

/-- The value after `href` and `=`: quoted, or up to a white space or the end of the tag. -/
def parseHrefValue (value : List Char) : Option (List Char) :=
  match value with
  | [] => none
  | quote :: rest =>
    if quote = '"' ∨ quote = '\'' then
      (find [quote] rest).map fun quoteEnd => decodeBasicHtmlEntities (rest.take quoteEnd)
    else some (decodeBasicHtmlEntities (value.take (value.findIdx fun ch => isWhitespace ch || ch == '>')))

def parseAnchorHref (openTag : List Char) : Option (List Char) := do
  let hrefIdx ← find "href".toList (toAsciiLowercase openTag)
  let value := (openTag.drop (hrefIdx + "href".toList.length)).dropWhile isWhitespace
  match value with
  | '=' :: value => parseHrefValue (value.dropWhile isWhitespace)
  | _ => none

/-- The loop, on the input from `cursor` on. Each turn consumes an anchor. -/
def replaceHtmlAnchorTags (input : List Char) : List Char :=
  if input = [] then []
  else
    match findAsciiCaseInsensitive input "<a".toList with
    | none => input
    | some anchorStart =>
      let anchor := input.drop anchorStart
      input.take anchorStart ++
        match find ['>'] anchor with
        | none => anchor
        | some openTagEnd =>
          let inner := anchor.drop (openTagEnd + 1)
          match findAsciiCaseInsensitive inner "</a>".toList with
          | none => anchor
          | some closeTag =>
            let replacement := (parseAnchorHref (anchor.take (openTagEnd + 1))).getD (inner.take closeTag)
            ' ' :: replacement ++ ' ' :: replaceHtmlAnchorTags (inner.drop (closeTag + "</a>".toList.length))
termination_by input.length
decreasing_by
  rename_i hne
  have := List.length_pos_iff.2 hne
  simp only [List.length_drop]
  omega

/-- The loop of `strip_html_tags`. -/
def stripTags (inTag : Bool) : List Char → List Char
  | [] => []
  | ch :: rest =>
    if ch = '<' then ' ' :: stripTags true rest
    else if ch = '>' then ' ' :: stripTags false rest
    else if inTag then stripTags inTag rest
    else ch :: stripTags inTag rest

def stripHtmlTags (input : List Char) : List Char := stripTags false input

/-! ### Hosts -/

def isAsciiAlphabetic (c : Char) : Bool := ('a' ≤ c && c ≤ 'z') || ('A' ≤ c && c ≤ 'Z')

def isAsciiAlphanumeric (c : Char) : Bool := isAsciiAlphabetic c || ('0' ≤ c && c ≤ '9')

def isLeadingPunctuation (c : Char) : Bool := c ∈ ['(', '[', '\x7b', '<', '"', '\'', '`']

def isTrailingPunctuation (c : Char) : Bool :=
  c ∈ [')', ']', '\x7d', '>', '.', ',', '!', '?', ';', ':', '"', '\'', '`']

def splitTokenAffixes (token : List Char) : List Char × List Char × List Char :=
  let start := token.findIdx fun c => !isLeadingPunctuation c
  let stop := ((token.reverse.findIdx? fun c => !isTrailingPunctuation c).map (token.length - ·)).getD start
  if stop < start then (token, [], [])
  else (token.take start, (token.take stop).drop start, token.drop stop)

def collapseWhitespace (input : List Char) : List Char := join ' ' (words isWhitespace input)

def hostnameForSpeech (host : List Char) : List Char :=
  collapseWhitespace (" dot ".toList.intercalate ((host.splitOn '.').map (replace ['-'] " dash ".toList)))

def isValidHostLabel (label : List Char) : Bool :=
  !label.isEmpty && label.head? != some '-' && label.getLast? != some '-' &&
    label.all fun c => isAsciiAlphanumeric c || c == '-'

def isValidHostname (host : List Char) : Bool :=
  host.contains '.' && (((host.splitOn '.').getLast?).any fun last => last.any isAsciiAlphabetic) &&
    (host.splitOn '.').all isValidHostLabel

def normalizeHostForSpeech (host : List Char) : Option (List Char) :=
  let host := Text.trim (· == '.') (Text.trim isWhitespace host)
  if host = [] then none
  else
    let host := toAsciiLowercase ((stripPrefix "www.".toList host).getD host)
    if isValidHostname host then some host else none

/-- The host of an authority with its path: up to the path, after the user, up to the port. -/
def hostOf (url : List Char) : List Char :=
  let hostAndPort := ((url.splitOnP fun c => c == '/' || c == '?' || c == '#').head?).getD []
  let host := ((hostAndPort.splitOn '@').getLast?).getD []
  ((host.splitOn ':').head?).getD []

def parseHostFromUrl (url : List Char) : Option (List Char) := do
  let withoutScheme ← (stripPrefix "http://".toList url).or ((stripPrefix "https://".toList url).or
    ((stripPrefix "HTTP://".toList url).or (stripPrefix "HTTPS://".toList url)))
  normalizeHostForSpeech (hostOf withoutScheme)

def parseHostFromBareToken (token : List Char) : Option (List Char) :=
  if (find "://".toList token).isSome then none else normalizeHostForSpeech (hostOf token)

def extractUrlHost (token : List Char) : Option (List Char) :=
  let lower := toAsciiLowercase token
  if "http://".toList <+: lower ∨ "https://".toList <+: lower then parseHostFromUrl token
  else if "www.".toList <+: lower then parseHostFromUrl ("https://".toList ++ token)
  else parseHostFromBareToken token

/-- The token as it is spoken, and the host if it is a link. -/
def normalizeTextTokenForTts (token : List Char) : List Char × Option (List Char) :=
  let (before, core, after) := splitTokenAffixes token
  if core = [] then (token, none)
  else
    match extractUrlHost core with
    | some hostname =>
      let spokenHost := hostnameForSpeech hostname
      (before ++ spokenHost ++ after, some spokenHost)
    | none => (token, none)

/-! ### Messages -/

structure TextMessageTtsAnalysis where
  normalizedMessage : List Char
  linkHostsForSpeech : List (List Char)
  nonLinkTokenCount : Nat

def tokenHasSpokenContent (token : List Char) : Bool := token.any isAsciiAlphanumeric

/-- The tokens that `analyze_text_message_for_tts` works on. -/
def textMessageTokens (rawMessage : List Char) : List (List Char) :=
  words isWhitespace (decodeBasicHtmlEntities (stripHtmlTags (replaceHtmlAnchorTags rawMessage)))

def analyzeTextMessageForTts (rawMessage : List Char) : TextMessageTtsAnalysis :=
  let normalizedTokens := (textMessageTokens rawMessage).map normalizeTextTokenForTts
  { normalizedMessage := collapseWhitespace (join ' ' (normalizedTokens.map Prod.fst))
    linkHostsForSpeech := normalizedTokens.filterMap Prod.snd
    nonLinkTokenCount := normalizedTokens.countP fun token => token.2.isNone && tokenHasSpokenContent token.1 }

def joinHumanList (items : List (List Char)) : List Char :=
  match items with
  | [] => []
  | [one] => one
  | [first, second] => first ++ " and ".toList ++ second
  | _ => items.zipIdx.flatMap fun (item, idx) =>
      (if idx = 0 then [] else if idx = items.length - 1 then ", and ".toList else ", ".toList) ++ item

/-- The sender as it is spoken. -/
def spokenSender (senderName : Option String) : String :=
  ((senderName.map MumbleSip.trim).filter fun name => !name.isEmpty).getD "Someone"

def textMessagePhrase (senderName : Option String) (rawMessage : String) : String :=
  let sender := spokenSender senderName
  let analysis := analyzeTextMessageForTts rawMessage.toList
  if analysis.nonLinkTokenCount = 0 ∧ analysis.linkHostsForSpeech ≠ [] then
    match analysis.linkHostsForSpeech with
    | [host] => sender ++ " posted a link to " ++ String.ofList host
    | hosts => sender ++ " posted links to " ++ String.ofList (joinHumanList hosts)
  else if analysis.normalizedMessage = [] then sender ++ " sent a message"
  else sender ++ " says: " ++ String.ofList analysis.normalizedMessage

def channelAnnouncementPhrase (channelName : Option String) (channelId : ChannelId) : String :=
  let name := MumbleSip.trim (channelName.getD "")
  if name.isEmpty then "You are now in channel " ++ toString channelId
  else "You are now in the " ++ name ++ " channel"

end MumbleSip
