import MumbleSip.Audio.Hosts

/-!
# Capitals in a link

Whether a token starts with a scheme or with `www.` is asked of its lower case, but both are taken off as they
are written. What is read of a token is its host as a whole, its host behind `www.`, or nothing.
-/

namespace MumbleSip

open Text

variable {s t t' h : List Char} {c d : Char}

/-! ### Lower case -/

theorem toNat_toLower (c : Char) :
    c.toLower.toNat = if 65 ≤ c.toNat ∧ c.toNat ≤ 90 then c.toNat + 32 else c.toNat := by
  unfold Char.toLower
  by_cases hupper : c.val ≥ 'A'.val ∧ c.val ≤ 'Z'.val
  · have hnat : 65 ≤ c.toNat ∧ c.toNat ≤ 90 := hupper
    have hshift : 'a'.val - 'A'.val = 32 := by decide
    have hsum : (c.val + 32).toNat = c.toNat + 32 := by
      rw [UInt32.toNat_add]
      show (c.toNat + 32) % 2 ^ 32 = c.toNat + 32
      omega
    rw [dif_pos hupper, if_pos hnat, ← hsum, ← hshift]
    rfl
  · have hnat : ¬(65 ≤ c.toNat ∧ c.toNat ≤ 90) := hupper
    rw [dif_neg hupper, if_neg hnat]

theorem toLower_toLower (c : Char) : c.toLower.toLower = c.toLower := by
  apply Char.toNat_inj.1
  rw [toNat_toLower, toNat_toLower]
  split
  · rw [if_neg (by omega)]
  · rfl

/-- A character that is no letter is not made by lowering another. -/
theorem toLower_eq_iff (hd : ¬(65 ≤ d.toNat ∧ d.toNat ≤ 90)) (hd' : ¬(97 ≤ d.toNat ∧ d.toNat ≤ 122)) :
    c.toLower = d ↔ c = d := by
  rw [← Char.toNat_inj, ← Char.toNat_inj, toNat_toLower]
  split
  · omega
  · rfl

theorem isWhitespace_toLower (c : Char) : isWhitespace c.toLower = isWhitespace c := by
  have hupper : 65 ≤ c.toNat ∧ c.toNat ≤ 90 → isWhitespace c = false ∧ isWhitespace c.toLower = false := by
    intro hc
    have hlower : 97 ≤ c.toLower.toNat ∧ c.toLower.toNat ≤ 122 := by
      rw [toNat_toLower, if_pos hc]
      omega
    constructor
    · apply isWhitespace_of_isHostChar
      rw [isHostChar_iff]
      omega
    · apply isWhitespace_of_isHostChar
      rw [isHostChar_iff]
      omega
  by_cases hc : 65 ≤ c.toNat ∧ c.toNat ≤ 90
  · rw [(hupper hc).1, (hupper hc).2]
  · have hsame : c.toLower = c := by
      apply Char.toNat_inj.1
      rw [toNat_toLower, if_neg hc]
    rw [hsame]

theorem toAsciiLowercase_toAsciiLowercase (s : List Char) :
    toAsciiLowercase (toAsciiLowercase s) = toAsciiLowercase s := by
  rw [toAsciiLowercase, toAsciiLowercase, List.map_map]
  apply List.map_congr_left
  intro c _
  exact toLower_toLower c

/-! ### What is read of a token -/

/-- The length of the scheme, however it is written. -/
def schemeLength (t : List Char) : Nat :=
  if "http://".toList <+: toAsciiLowercase t then 7 else if "https://".toList <+: toAsciiLowercase t then 8 else 0

/-- What the host is read from. -/
def hostText (t : List Char) : List Char :=
  Text.trim (· == '.') (Text.trim isWhitespace (hostOf (t.drop (schemeLength t))))

/-- A scheme in capitals and small letters. -/
def MixedScheme (t : List Char) : Prop :=
  ("http://".toList <+: toAsciiLowercase t ∨ "https://".toList <+: toAsciiLowercase t) ∧
    ¬("http://".toList <+: t ∨ "https://".toList <+: t ∨ "HTTP://".toList <+: t ∨ "HTTPS://".toList <+: t)

/-- Neither a scheme nor `www.`, and `://` further on. -/
def RefusedBare (t : List Char) : Prop :=
  ¬("http://".toList <+: toAsciiLowercase t ∨ "https://".toList <+: toAsciiLowercase t) ∧
    ¬"www.".toList <+: toAsciiLowercase t ∧ "://".toList <:+: t

instance (t : List Char) : Decidable (MixedScheme t) := inferInstanceAs (Decidable (_ ∧ _))

instance (t : List Char) : Decidable (RefusedBare t) := inferInstanceAs (Decidable (_ ∧ _))

inductive Reading
  | nothing
  | behindWww
  | whole
  deriving DecidableEq

def reading (t : List Char) : Reading :=
  if MixedScheme t ∨ RefusedBare t then .nothing
  else if "www.".toList <+: hostText t then .behindWww
  else .whole

/-- The host, if it is valid. -/
def validHost (h : List Char) : Option (List Char) := if isValidHostname h then some h else none

/-- The host as it is read. -/
def Reading.host (h : List Char) : Reading → Option (List Char)
  | nothing => none
  | behindWww => validHost (h.drop 4)
  | whole => validHost h

theorem beq_toLower (c : Char) (hd : ¬(65 ≤ d.toNat ∧ d.toNat ≤ 90)) (hd' : ¬(97 ≤ d.toNat ∧ d.toNat ≤ 122)) :
    (c.toLower == d) = (c == d) := by
  rw [Bool.eq_iff_iff, beq_iff_eq, beq_iff_eq]
  exact toLower_eq_iff hd hd'

theorem hostOf_toAsciiLowercase (s : List Char) : hostOf (toAsciiLowercase s) = toAsciiLowercase (hostOf s) := by
  have hslash := fun c => beq_toLower c (d := '/') (by decide) (by decide)
  have hquery := fun c => beq_toLower c (d := '?') (by decide) (by decide)
  have hfragment := fun c => beq_toLower c (d := '#') (by decide) (by decide)
  have hat := fun c => beq_toLower c (d := '@') (by decide) (by decide)
  have hcolon := fun c => beq_toLower c (d := ':') (by decide) (by decide)
  have hgetD : ∀ o : Option (List Char), (o.map (List.map Char.toLower)).getD [] =
      (o.getD []).map Char.toLower := by
    intro o
    cases o with
    | none => rfl
    | some l => rfl
  simp only [hostOf, toAsciiLowercase, List.splitOn_eq_splitOnP, splitOnP_map, hslash, hquery, hfragment,
    List.head?_map, hgetD, hat, List.getLast?_map, hcolon]

theorem trim_toAsciiLowercase (s : List Char) :
    Text.trim (· == '.') (Text.trim isWhitespace (toAsciiLowercase s)) =
      toAsciiLowercase (Text.trim (· == '.') (Text.trim isWhitespace s)) := by
  have hdot := fun c => beq_toLower c (d := '.') (by decide) (by decide)
  simp only [toAsciiLowercase, trim_map, isWhitespace_toLower, hdot]

theorem hostText_toAsciiLowercase (t : List Char) :
    hostText (toAsciiLowercase t) = toAsciiLowercase (hostText t) := by
  have hscheme : schemeLength (toAsciiLowercase t) = schemeLength t := by
    rw [schemeLength, toAsciiLowercase_toAsciiLowercase]
    rfl
  have hdrop : (toAsciiLowercase t).drop (schemeLength t) = toAsciiLowercase (t.drop (schemeLength t)) :=
    List.map_drop.symm
  rw [hostText, hscheme, hdrop, hostOf_toAsciiLowercase, trim_toAsciiLowercase]
  rfl

/-- The host text of two tokens that differ in capitals differs in capitals. -/
theorem hostText_congr (heq : toAsciiLowercase t = toAsciiLowercase t') :
    toAsciiLowercase (hostText t) = toAsciiLowercase (hostText t') := by
  rw [← hostText_toAsciiLowercase, heq, hostText_toAsciiLowercase]

/-! ### The forms of a token -/

theorem normalizeHostForSpeech_eq (s : List Char) : normalizeHostForSpeech s =
    let host := Text.trim (· == '.') (Text.trim isWhitespace s)
    (if "www.".toList <+: host then Reading.behindWww else .whole).host (toAsciiLowercase host) := by
  generalize hhost : Text.trim (· == '.') (Text.trim isWhitespace s) = host
  simp only [normalizeHostForSpeech, hhost]
  have hlength : "www.".toList.length = 4 := by decide
  by_cases hwww : "www.".toList <+: host
  · have hne : host ≠ [] := by
      rintro rfl
      exact absurd hwww (by decide)
    rw [if_neg hne, stripPrefix, if_pos hwww, if_pos hwww, Option.getD_some, hlength]
    have hdrop : toAsciiLowercase (host.drop 4) = (toAsciiLowercase host).drop 4 := List.map_drop
    rw [hdrop]
    rfl
  · rw [stripPrefix, if_neg hwww, if_neg hwww, Option.getD_none]
    split
    · rename_i hnil
      rw [hnil]
      rfl
    · rfl

theorem stripPrefix_of_isPrefix {pre : List Char} (hstarts : pre <+: t) :
    stripPrefix pre t = some (t.drop pre.length) := if_pos hstarts

theorem schemeLength_http (hhttp : "http://".toList <+: toAsciiLowercase t) : schemeLength t = 7 := if_pos hhttp

theorem schemeLength_https (hhttps : "https://".toList <+: toAsciiLowercase t) : schemeLength t = 8 := by
  have hhttp : ¬"http://".toList <+: toAsciiLowercase t := by
    intro hstarts
    have hprefix := List.prefix_of_prefix_length_le hstarts hhttps (by decide)
    exact absurd hprefix (by decide)
  rw [schemeLength, if_neg hhttp, if_pos hhttps]

/-- A scheme that is written in one case is taken off. -/
theorem parseHostFromUrl_of_not_mixed
    (hscheme : "http://".toList <+: toAsciiLowercase t ∨ "https://".toList <+: toAsciiLowercase t)
    (hmixed : ¬MixedScheme t) :
    parseHostFromUrl t = normalizeHostForSpeech (hostOf (t.drop (schemeLength t))) := by
  have hlower : ∀ {pre : List Char}, pre <+: t → toAsciiLowercase pre <+: toAsciiLowercase t :=
    fun hstarts => hstarts.map Char.toLower
  have hHTTPlower : toAsciiLowercase "HTTP://".toList = "http://".toList := by decide
  have hHTTPSlower : toAsciiLowercase "HTTPS://".toList = "https://".toList := by decide
  have hhttplower : toAsciiLowercase "http://".toList = "http://".toList := by decide
  have hhttpslower : toAsciiLowercase "https://".toList = "https://".toList := by decide
  have hseven : "http://".toList.length = 7 ∧ "HTTP://".toList.length = 7 := by decide
  have height : "https://".toList.length = 8 ∧ "HTTPS://".toList.length = 8 := by decide
  rw [parseHostFromUrl]
  by_cases hhttp : "http://".toList <+: t
  · rw [stripPrefix_of_isPrefix hhttp, schemeLength_http (hhttplower ▸ hlower hhttp), hseven.1,
      Option.some_or, Option.bind_eq_bind, Option.bind_some]
  by_cases hhttps : "https://".toList <+: t
  · rw [stripPrefix, if_neg hhttp, stripPrefix_of_isPrefix hhttps,
      schemeLength_https (hhttpslower ▸ hlower hhttps), height.1, Option.none_or, Option.some_or,
      Option.bind_eq_bind, Option.bind_some]
  by_cases hHTTP : "HTTP://".toList <+: t
  · rw [stripPrefix, if_neg hhttp, stripPrefix, if_neg hhttps, stripPrefix_of_isPrefix hHTTP,
      schemeLength_http (hHTTPlower ▸ hlower hHTTP), hseven.2, Option.none_or, Option.none_or, Option.some_or,
      Option.bind_eq_bind, Option.bind_some]
  by_cases hHTTPS : "HTTPS://".toList <+: t
  · rw [stripPrefix, if_neg hhttp, stripPrefix, if_neg hhttps, stripPrefix, if_neg hHTTP,
      stripPrefix_of_isPrefix hHTTPS, schemeLength_https (hHTTPSlower ▸ hlower hHTTPS), height.2,
      Option.none_or, Option.none_or, Option.none_or, Option.bind_eq_bind, Option.bind_some]
  · refine absurd ⟨hscheme, ?_⟩ hmixed
    rw [not_or, not_or, not_or]
    exact ⟨hhttp, hhttps, hHTTP, hHTTPS⟩

theorem parseHostFromUrl_of_mixed (hmixed : MixedScheme t) : parseHostFromUrl t = none := by
  obtain ⟨_, hnot⟩ := hmixed
  rw [not_or, not_or, not_or] at hnot
  obtain ⟨hhttp, hhttps, hHTTP, hHTTPS⟩ := hnot
  rw [parseHostFromUrl, stripPrefix, if_neg hhttp, stripPrefix, if_neg hhttps, stripPrefix, if_neg hHTTP,
    stripPrefix, if_neg hHTTPS]
  rfl

/-- What is said of a token depends on its reading, and on its host in lower case. -/
theorem extractUrlHost_eq (t : List Char) :
    extractUrlHost t = (reading t).host (toAsciiLowercase (hostText t)) := by
  have hread : ¬(MixedScheme t ∨ RefusedBare t) →
      normalizeHostForSpeech (hostOf (t.drop (schemeLength t))) =
        (reading t).host (toAsciiLowercase (hostText t)) := by
    intro hnot
    rw [normalizeHostForSpeech_eq, reading, if_neg hnot]
    rfl
  by_cases hscheme : "http://".toList <+: toAsciiLowercase t ∨ "https://".toList <+: toAsciiLowercase t
  · simp only [extractUrlHost, if_pos hscheme]
    by_cases hmixed : MixedScheme t
    · rw [parseHostFromUrl_of_mixed hmixed, reading, if_pos (.inl hmixed)]
      rfl
    · rw [parseHostFromUrl_of_not_mixed hscheme hmixed]
      exact hread fun hor => hor.elim hmixed fun hrefused => hrefused.1 hscheme
  · -- without a scheme nothing is taken off
    have hnone : schemeLength t = 0 := by
      rw [not_or] at hscheme
      rw [schemeLength, if_neg hscheme.1, if_neg hscheme.2]
    have hmixed : ¬MixedScheme t := fun hmixed => hscheme hmixed.1
    rw [hnone, List.drop_zero] at hread
    simp only [extractUrlHost, if_neg hscheme]
    by_cases hwww : "www.".toList <+: toAsciiLowercase t
    · rw [if_pos hwww, parseHostFromUrl_https]
      exact hread fun hor => hor.elim hmixed fun hrefused => hrefused.2.1 hwww
    · rw [if_neg hwww, parseHostFromBareToken]
      by_cases hin : "://".toList <:+: t
      · have hfound : (find "://".toList t).isSome = true := by
          rw [← Option.ne_none_iff_isSome, Ne, find_eq_none, not_not]
          exact hin
        have hrefused : RefusedBare t := ⟨hscheme, hwww, hin⟩
        rw [if_pos hfound, reading, if_pos (.inr hrefused)]
        rfl
      · have hfound : ¬(find "://".toList t).isSome = true := by
          rw [find_eq_none.2 hin]
          exact Bool.false_ne_true
        rw [if_neg hfound]
        exact hread fun hor => hor.elim hmixed fun hrefused => hin hrefused.2.2

/-! ### Two spellings of a token -/

theorem isValidHostname_www (hvalid : isValidHostname h = true) :
    isValidHostname ("www.".toList ++ h) = true := by
  have hwww : "www.".toList = "www".toList ++ ['.'] := by decide
  have hsplit : ("www.".toList ++ h).splitOn '.' = "www".toList :: h.splitOn '.' := by
    rw [hwww, List.append_assoc, List.singleton_append,
      List.splitOn_append_cons_self_of_not_mem (by decide)]
  have hlabel : isValidHostLabel "www".toList = true := by decide
  simp only [isValidHostname, Bool.and_eq_true] at hvalid ⊢
  obtain ⟨⟨hdot, hlast⟩, hall⟩ := hvalid
  refine ⟨⟨?_, ?_⟩, ?_⟩
  · exact List.contains_iff_mem.2 (List.mem_append_right _ (List.contains_iff_mem.1 hdot))
  · rw [hsplit, List.getLast?_cons_of_ne_nil (List.splitOn_ne_nil _ _)]
    exact hlast
  · rw [hsplit, List.all_cons, hlabel, hall]
    rfl

/-- Two spellings of a token are read alike, or nothing valid is read of either. -/
def SameReading (t t' : List Char) : Prop :=
  isValidHostname (toAsciiLowercase (hostText t)) = false ∨ reading t = reading t' ∨
    reading t ≠ .whole ∧ reading t' ≠ .whole ∧
      isValidHostname ((toAsciiLowercase (hostText t)).drop 4) = false

theorem isPrefix_of_behindWww (hreading : reading t = .behindWww) : "www.".toList <+: hostText t := by
  unfold reading at hreading
  split at hreading
  · cases hreading
  · split at hreading
    · rename_i hwww
      exact hwww
    · cases hreading

theorem validHost_eq_none_iff : validHost h = none ↔ isValidHostname h = false := by
  unfold validHost
  split
  · rename_i hvalid
    exact iff_of_false (fun hnone => by cases hnone) (by rw [hvalid]; exact Bool.noConfusion)
  · rename_i hinvalid
    exact iff_of_true rfl (Bool.not_eq_true _ ▸ hinvalid)

theorem validHost_drop_iff (hwww : "www.".toList <+: h) :
    validHost h = validHost (h.drop 4) ↔ isValidHostname h = false := by
  obtain ⟨rest, rfl⟩ := hwww
  have hlength : "www.".toList.length = 4 := by decide
  have hdrop : ("www.".toList ++ rest).drop 4 = rest := List.drop_left' hlength
  rw [hdrop]
  constructor
  · intro heq
    cases hvalid : isValidHostname ("www.".toList ++ rest) with
    | false => rfl
    | true =>
      rw [validHost, if_pos hvalid, validHost] at heq
      split at heq
      · have hlong := congrArg List.length (Option.some.inj heq)
        rw [List.length_append, hlength] at hlong
        omega
      · cases heq
  · intro hinvalid
    have hrest : isValidHostname rest = false := by
      cases hvalid : isValidHostname rest with
      | false => rfl
      | true => rw [← hinvalid, isValidHostname_www hvalid]
    rw [validHost_eq_none_iff.2 hinvalid, validHost_eq_none_iff.2 hrest]

theorem isPrefix_toAsciiLowercase (hreading : reading t = .behindWww) :
    "www.".toList <+: toAsciiLowercase (hostText t) := by
  have hlowered : toAsciiLowercase "www.".toList = "www.".toList := by decide
  have hstarts := (isPrefix_of_behindWww hreading).map Char.toLower
  rw [← toAsciiLowercase, ← toAsciiLowercase, hlowered] at hstarts
  exact hstarts

theorem isValidHostname_drop (hwww : "www.".toList <+: h) (hinvalid : isValidHostname h = false) :
    isValidHostname (h.drop 4) = false := by
  rw [← validHost_eq_none_iff, ← (validHost_drop_iff hwww).2 hinvalid, validHost_eq_none_iff]
  exact hinvalid

theorem Reading.host_eq_iff (r r' : Reading) (hwww : r = behindWww ∨ r' = behindWww → "www.".toList <+: h) :
    r.host h = r'.host h ↔ isValidHostname h = false ∨ r = r' ∨
      r ≠ whole ∧ r' ≠ whole ∧ isValidHostname (h.drop 4) = false := by
  cases r with
  | nothing =>
    cases r' with
    | nothing => exact iff_of_true rfl (.inr (.inl rfl))
    | behindWww =>
      have hshort := isValidHostname_drop (hwww (.inr rfl))
      simp only [host, eq_comm (a := none), validHost_eq_none_iff, reduceCtorEq, ne_eq, not_false_eq_true,
        true_and, false_or]
      exact ⟨.inr, fun hor => hor.elim hshort id⟩
    | whole =>
      simp only [host, eq_comm (a := none), validHost_eq_none_iff, reduceCtorEq, ne_eq, not_true_eq_false,
        false_and, and_false, or_false]
  | behindWww =>
    cases r' with
    | nothing =>
      have hshort := isValidHostname_drop (hwww (.inl rfl))
      simp only [host, validHost_eq_none_iff, reduceCtorEq, ne_eq, not_false_eq_true, true_and, false_or]
      exact ⟨.inr, fun hor => hor.elim hshort id⟩
    | behindWww => exact iff_of_true rfl (.inr (.inl rfl))
    | whole =>
      have hdiffer := validHost_drop_iff (hwww (.inl rfl))
      rw [eq_comm] at hdiffer
      simp only [host, hdiffer, reduceCtorEq, ne_eq, not_true_eq_false, false_and, and_false, or_false]
  | whole =>
    cases r' with
    | nothing =>
      simp only [host, validHost_eq_none_iff, reduceCtorEq, ne_eq, not_true_eq_false, false_and, or_false]
    | behindWww =>
      have hdiffer := validHost_drop_iff (hwww (.inr rfl))
      simp only [host, hdiffer, reduceCtorEq, ne_eq, not_true_eq_false, false_and, or_false]
    | whole => exact iff_of_true rfl (.inr (.inl rfl))

/-- Two spellings of a token give the same host exactly if they are read alike, or there is no valid host in
what is read. -/
theorem extractUrlHost_capitals_iff (t t' : List Char) (heq : toAsciiLowercase t = toAsciiLowercase t') :
    extractUrlHost t = extractUrlHost t' ↔ SameReading t t' := by
  have hwww : reading t = .behindWww ∨ reading t' = .behindWww →
      "www.".toList <+: toAsciiLowercase (hostText t) := by
    rintro (hreading | hreading)
    · exact isPrefix_toAsciiLowercase hreading
    · rw [hostText_congr heq]
      exact isPrefix_toAsciiLowercase hreading
  rw [extractUrlHost_eq t, extractUrlHost_eq t', ← hostText_congr heq]
  exact Reading.host_eq_iff _ _ hwww

theorem extractUrlHost_capitals_iff_loud :
    extractUrlHost "HTTP://X.org/a".toList = extractUrlHost "http://x.ORG/A".toList ↔
      SameReading "HTTP://X.org/a".toList "http://x.ORG/A".toList :=
  extractUrlHost_capitals_iff _ _ (by decide)

/-- A scheme with one capital, as a phone writes it at the start of a message. -/
theorem capital_scheme_refused : ¬∀ t t' : List Char, toAsciiLowercase t = toAsciiLowercase t' →
    extractUrlHost t = extractUrlHost t' := by
  intro hclaim
  have heq := hclaim "Http://x.org".toList "http://x.org".toList (by decide)
  exact absurd heq (by decide)

end MumbleSip
