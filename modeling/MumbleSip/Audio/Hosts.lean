import MumbleSip.Audio.Verbatim

/-!
# The host of a link

A link with a scheme, one that starts with `www.` and one that starts with its host are told apart before they
are cut, and each gives the host. Only the last form is refused where `://` follows.
-/

namespace MumbleSip

open Text

variable {h port rest user seg s t : List Char} {c : Char}

/-- What a host is made of. -/
def isHostChar (c : Char) : Bool := isAsciiAlphanumeric c || c == '-' || c == '.'

/-! ### Characters -/

theorem isHostChar_iff : isHostChar c = true ↔
    (97 ≤ c.toNat ∧ c.toNat ≤ 122) ∨ (65 ≤ c.toNat ∧ c.toNat ≤ 90) ∨ (48 ≤ c.toNat ∧ c.toNat ≤ 57) ∨
      c.toNat = 45 ∨ c.toNat = 46 := by
  have hle : ∀ a b : Char, a ≤ b ↔ a.toNat ≤ b.toNat := fun a b => Iff.rfl
  have heq : ∀ a b : Char, a = b ↔ a.toNat = b.toNat := fun a b => Char.toNat_inj.symm
  simp only [isHostChar, isAsciiAlphanumeric, isAsciiAlphabetic, Bool.or_eq_true, Bool.and_eq_true,
    decide_eq_true_eq, beq_iff_eq, hle, heq, or_assoc]
  rfl

theorem isWhitespace_of_isHostChar (hc : isHostChar c = true) : isWhitespace c = false := by
  rw [isHostChar_iff] at hc
  simp only [isWhitespace, Bool.or_eq_false_iff, Bool.and_eq_false_iff, decide_eq_false_iff_not,
    List.mem_cons, List.not_mem_nil, or_false, not_or]
  omega

theorem ne_of_isHostChar {d : Char} (hc : isHostChar c = true) (hd : isHostChar d = false) : c ≠ d := by
  rintro rfl
  rw [hc] at hd
  cases hd

theorem isHostChar_of_isDigit (hc : c.isDigit = true) : isHostChar c = true := by
  have hdigit : 48 ≤ c.toNat ∧ c.toNat ≤ 57 := by
    simp only [Char.isDigit, Bool.and_eq_true, decide_eq_true_eq] at hc
    exact hc
  rw [isHostChar_iff]
  omega

/-! ### Hosts -/

theorem mem_splitOn_of_mem {a : Char} (ha : a ∈ s) : a = c ∨ ∃ piece ∈ s.splitOn c, a ∈ piece := by
  induction s with
  | nil => exact absurd ha List.not_mem_nil
  | cons b s ih =>
    obtain ⟨w, ws, hsplit⟩ := List.exists_cons_of_ne_nil (List.splitOn_ne_nil c s)
    rw [List.splitOn_cons_eq_if_modifyHead]
    rw [hsplit] at ih ⊢
    by_cases hb : (b == c) = true
    · rw [if_pos hb]
      rcases List.mem_cons.1 ha with rfl | hmem
      · exact .inl (beq_iff_eq.1 hb)
      · rcases ih hmem with heq | ⟨piece, hpiece, hin⟩
        · exact .inl heq
        · exact .inr ⟨piece, List.mem_cons_of_mem _ hpiece, hin⟩
    · rw [if_neg hb, List.modifyHead_cons]
      rcases List.mem_cons.1 ha with rfl | hmem
      · exact .inr ⟨_, List.mem_cons_self, List.mem_cons_self⟩
      · rcases ih hmem with heq | ⟨piece, hpiece, hin⟩
        · exact .inl heq
        · rcases List.mem_cons.1 hpiece with rfl | hpiece
          · exact .inr ⟨_, List.mem_cons_self, List.mem_cons_of_mem _ hin⟩
          · exact .inr ⟨piece, List.mem_cons_of_mem _ hpiece, hin⟩

theorem isValidHostLabel_of_mem {label : List Char} (hvalid : isValidHostname h = true)
    (hlabel : label ∈ h.splitOn '.') : isValidHostLabel label = true := by
  simp only [isValidHostname, Bool.and_eq_true] at hvalid
  exact List.all_eq_true.1 hvalid.2 label hlabel

theorem contains_of_isValidHostname (hvalid : isValidHostname h = true) : '.' ∈ h := by
  simp only [isValidHostname, Bool.and_eq_true] at hvalid
  exact List.contains_iff_mem.1 hvalid.1.1

theorem isHostChar_of_mem (hvalid : isValidHostname h = true) (hc : c ∈ h) : isHostChar c = true := by
  rcases mem_splitOn_of_mem (c := '.') hc with rfl | ⟨label, hlabel, hin⟩
  · rfl
  · have hlabel := isValidHostLabel_of_mem hvalid hlabel
    simp only [isValidHostLabel, Bool.and_eq_true] at hlabel
    have hchar := List.all_eq_true.1 hlabel.2 c hin
    rw [isHostChar, hchar, Bool.true_or]

/-- No label is empty, and so a host does not start or end with a dot. -/
theorem nil_not_mem_splitOn (hvalid : isValidHostname h = true) : [] ∉ h.splitOn '.' := by
  intro hmem
  have hlabel := isValidHostLabel_of_mem hvalid hmem
  cases hlabel

theorem head_ne_dot (hvalid : isValidHostname h = true) : h.head? ≠ some '.' := by
  intro hhead
  obtain ⟨rest, rfl⟩ := List.head?_eq_some_iff.1 hhead
  apply nil_not_mem_splitOn hvalid
  rw [List.splitOn_cons_eq_if_modifyHead, if_pos (beq_self_eq_true '.')]
  exact List.mem_cons_self

theorem getLast_ne_dot (hvalid : isValidHostname h = true) : h.getLast? ≠ some '.' := by
  intro hlast
  obtain ⟨front, rfl⟩ := List.getLast?_eq_some_iff.1 hlast
  apply nil_not_mem_splitOn hvalid
  rw [List.splitOn_append_cons_self]
  exact List.mem_append_right _ List.mem_cons_self

theorem trim_of_isHostChar (hchars : ∀ c ∈ s, isHostChar c = true) (hhead : s.head? ≠ some '.')
    (hlast : s.getLast? ≠ some '.') : Text.trim (· == '.') (Text.trim isWhitespace s) = s := by
  have hspace : Text.trim isWhitespace s = s := by
    apply trim_eq_self
    · intro c hc
      exact isWhitespace_of_isHostChar (hchars c (List.mem_of_mem_head? hc))
    · intro c hc
      exact isWhitespace_of_isHostChar (hchars c (List.mem_of_mem_getLast? hc))
  rw [hspace]
  apply trim_eq_self
  · intro c hc
    exact beq_eq_false_iff_ne.2 fun heq => hhead (heq ▸ hc)
  · intro c hc
    exact beq_eq_false_iff_ne.2 fun heq => hlast (heq ▸ hc)

theorem ne_nil_of_isValidHostname (hvalid : isValidHostname h = true) : h ≠ [] := by
  rintro rfl
  cases contains_of_isValidHostname hvalid

theorem normalizeHostForSpeech_host (hvalid : isValidHostname h = true) (hlower : toAsciiLowercase h = h)
    (hwww : ¬"www.".toList <+: h) : normalizeHostForSpeech h = some h := by
  have htrim := trim_of_isHostChar (fun c hc => isHostChar_of_mem hvalid hc) (head_ne_dot hvalid)
    (getLast_ne_dot hvalid)
  have hstrip : stripPrefix "www.".toList h = none := if_neg hwww
  simp only [normalizeHostForSpeech, htrim, if_neg (ne_nil_of_isValidHostname hvalid), hstrip,
    Option.getD_none, hlower, if_pos hvalid]

theorem isHostChar_of_mem_www (hvalid : isValidHostname h = true) :
    ∀ c ∈ "www.".toList ++ h, isHostChar c = true := by
  have hfront : "www.".toList.all isHostChar = true := by decide
  intro c hc
  rcases List.mem_append.1 hc with hmem | hmem
  · exact List.all_eq_true.1 hfront c hmem
  · exact isHostChar_of_mem hvalid hmem

theorem normalizeHostForSpeech_www (hvalid : isValidHostname h = true) (hlower : toAsciiLowercase h = h) :
    normalizeHostForSpeech ("www.".toList ++ h) = some h := by
  have hchars := isHostChar_of_mem_www hvalid
  have hnil := ne_nil_of_isValidHostname hvalid
  have hlast : ("www.".toList ++ h).getLast? ≠ some '.' := by
    rw [List.getLast?_append_of_ne_nil _ hnil]
    exact getLast_ne_dot hvalid
  have hhead : ("www.".toList ++ h).head? ≠ some '.' := by
    have hpat : "www.".toList = 'w' :: "ww.".toList := by decide
    rw [hpat, List.cons_append, List.head?_cons]
    exact fun heq => absurd (Option.some.inj heq) (by decide)
  have htrim := trim_of_isHostChar hchars hhead hlast
  have hstrip : stripPrefix "www.".toList ("www.".toList ++ h) = some h := by
    rw [stripPrefix, if_pos (List.prefix_append _ _), List.drop_left]
  simp only [normalizeHostForSpeech, htrim, if_neg (List.append_ne_nil_of_right_ne_nil _ hnil), hstrip,
    Option.getD_some, hlower, if_pos hvalid]

/-! ### Authorities -/

/-- A port in front of a path, a query or a fragment, if there are any. -/
structure UrlTail (port rest : List Char) : Prop where
  port : port = [] ∨ ∃ digits, digits ≠ [] ∧ (∀ d ∈ digits, d.isDigit = true) ∧ port = ':' :: digits
  rest : rest = [] ∨ ∃ c r, rest = c :: r ∧ c ∈ ['/', '?', '#']

def isPathStart (c : Char) : Bool := c == '/' || c == '?' || c == '#'

theorem isPathStart_of_isHostChar (hc : isHostChar c = true) : isPathStart c = false := by
  simp only [isPathStart, Bool.or_eq_false_iff, beq_eq_false_iff_ne]
  exact ⟨⟨ne_of_isHostChar hc (by decide), ne_of_isHostChar hc (by decide)⟩, ne_of_isHostChar hc (by decide)⟩

theorem UrlTail.port_cases (htail : UrlTail port rest) (hc : c ∈ port) : c = ':' ∨ isHostChar c = true := by
  rcases htail.port with rfl | ⟨digits, _, hdigits, rfl⟩
  · exact absurd hc List.not_mem_nil
  · rcases List.mem_cons.1 hc with heq | hmem
    · exact .inl heq
    · exact .inr (isHostChar_of_isDigit (hdigits c hmem))

theorem isPathStart_authority {user : List Char} (htail : UrlTail port rest)
    (hchars : ∀ c ∈ h, isHostChar c = true)
    (huser : user = [] ∨ ∃ u, (∀ c ∈ u, isPathStart c = false) ∧ user = u ++ ['@']) :
    ∀ c ∈ user ++ (h ++ port), isPathStart c = false := by
  intro c hc
  rcases List.mem_append.1 hc with hmem | hmem
  · rcases huser with rfl | ⟨u, hu, rfl⟩
    · exact absurd hmem List.not_mem_nil
    · rcases List.mem_append.1 hmem with hmem | hmem
      · exact hu c hmem
      · rw [List.mem_singleton.1 hmem]
        rfl
  · rcases List.mem_append.1 hmem with hmem | hmem
    · exact isPathStart_of_isHostChar (hchars c hmem)
    · rcases htail.port_cases hmem with rfl | hchar
      · rfl
      · exact isPathStart_of_isHostChar hchar

theorem at_not_mem_host (htail : UrlTail port rest) (hchars : ∀ c ∈ h, isHostChar c = true) :
    '@' ∉ h ++ port := by
  have hat : isHostChar '@' = false := by decide
  intro hmem
  rcases List.mem_append.1 hmem with hmem | hmem
  · exact ne_of_isHostChar (hchars _ hmem) hat rfl
  · rcases htail.port_cases hmem with heq | hchar
    · exact absurd heq (by decide)
    · exact ne_of_isHostChar hchar hat rfl

theorem hostOf_append (user : List Char) (htail : UrlTail port rest) (hchars : ∀ c ∈ h, isHostChar c = true)
    (huser : user = [] ∨ ∃ u, (∀ c ∈ u, isPathStart c = false) ∧ user = u ++ ['@']) :
    hostOf (user ++ (h ++ (port ++ rest))) = h := by
  have hrest : rest = [] ∨ ∃ a r, rest = a :: r ∧ isPathStart a = true := by
    rcases htail.rest with hnil | ⟨c, r, heq, hc⟩
    · exact .inl hnil
    · refine .inr ⟨c, r, heq, ?_⟩
      simp only [List.mem_cons, List.not_mem_nil, or_false] at hc
      simp only [isPathStart, Bool.or_eq_true, beq_iff_eq, or_assoc]
      exact hc
  have hfirst := head?_splitOnP_append (isPathStart_authority htail hchars huser) hrest
  -- neither the host nor the port has an `@`, and so they are behind the last one
  have hat := at_not_mem_host htail hchars
  have hlast : ((user ++ (h ++ port)).splitOn '@').getLast? = some (h ++ port) := by
    rcases huser with rfl | ⟨u, _, rfl⟩
    · rw [List.nil_append, List.splitOn_eq_singleton hat]
      rfl
    · rw [List.append_assoc, List.singleton_append, List.splitOn_append_cons_self,
        List.splitOn_eq_singleton hat, List.getLast?_concat]
  have hcolon : port = [] ∨ ∃ a r, port = a :: r ∧ (a == ':') = true := by
    rcases htail.port with hnil | ⟨digits, _, _, heq⟩
    · exact .inl hnil
    · exact .inr ⟨':', digits, heq, rfl⟩
  have hhost := head?_splitOnP_append (p := (· == ':')) (m := h) (l := port)
    (fun c hc => beq_eq_false_iff_ne.2 (ne_of_isHostChar (hchars c hc) (by decide))) hcolon
  have hassoc : user ++ (h ++ (port ++ rest)) = user ++ (h ++ port) ++ rest := by
    simp only [List.append_assoc]
  have hcut : ((user ++ (h ++ port) ++ rest).splitOnP fun c => c == '/' || c == '?' || c == '#').head? =
    some (user ++ (h ++ port)) := hfirst
  simp only [hostOf, hassoc, hcut, Option.getD_some, hlast]
  rw [List.splitOn_eq_splitOnP, hhost]
  rfl

/-! ### The forms of a link -/

/-- Up to its port, a link is no scheme. -/
theorem eq_of_isPrefix {w v tail : List Char} (hw : ∀ a ∈ w, isHostChar a = true) (hc : isHostChar c = false)
    (hchars : ∀ a ∈ h, isHostChar a = true) (htail : ∀ a, tail.head? = some a → isHostChar a = false)
    (hstarts : w ++ c :: v <+: h ++ tail) : w = h := by
  obtain ⟨r, hr⟩ := hstarts
  have htake := congrArg (List.takeWhile isHostChar) hr
  rw [List.append_assoc, List.takeWhile_append_of_pos hw, List.takeWhile_append_of_pos hchars,
    List.cons_append, List.takeWhile_cons_of_neg (by rw [hc]; exact Bool.false_ne_true), List.append_nil] at htake
  cases tail with
  | nil => rw [htake, List.takeWhile_nil, List.append_nil]
  | cons a tail =>
    rw [htake, List.takeWhile_cons_of_neg (by rw [htail a rfl]; exact Bool.false_ne_true), List.append_nil]

theorem UrlTail.head_not_isHostChar (htail : UrlTail port rest) :
    ∀ a, (toAsciiLowercase (port ++ rest)).head? = some a → isHostChar a = false := by
  intro a ha
  rcases htail.port with rfl | ⟨digits, _, _, rfl⟩
  · rcases htail.rest with rfl | ⟨c, r, rfl, hc⟩
    · cases ha
    · rw [← Option.some.inj ha]
      simp only [List.mem_cons, List.not_mem_nil, or_false] at hc
      rcases hc with rfl | rfl | rfl
      · decide
      · decide
      · decide
  · rw [← Option.some.inj ha]
    decide

theorem not_scheme (htail : UrlTail port rest) (hchars : ∀ c ∈ s, isHostChar c = true)
    (hlower : toAsciiLowercase s = s) (hdot : '.' ∈ s) :
    ¬("http://".toList <+: toAsciiLowercase (s ++ (port ++ rest)) ∨
      "https://".toList <+: toAsciiLowercase (s ++ (port ++ rest))) := by
  have hcut : "http://".toList = "http".toList ++ ':' :: "//".toList := by decide
  have hcuts : "https://".toList = "https".toList ++ ':' :: "//".toList := by decide
  have hw : "http".toList.all isHostChar = true := by decide
  have hws : "https".toList.all isHostChar = true := by decide
  have hcolon : isHostChar ':' = false := by decide
  have htailHead := htail.head_not_isHostChar
  rw [toAsciiLowercase_append, hlower, hcut, hcuts]
  rintro (hstarts | hstarts)
  · have heq := eq_of_isPrefix (List.all_eq_true.1 hw) hcolon hchars htailHead hstarts
    rw [← heq] at hdot
    exact absurd hdot (by decide)
  · have heq := eq_of_isPrefix (List.all_eq_true.1 hws) hcolon hchars htailHead hstarts
    rw [← heq] at hdot
    exact absurd hdot (by decide)

/-- A host that is not cut at `www.` does not start with it, whatever follows. -/
theorem not_www (hvalid : isValidHostname h = true)
    (hlower : toAsciiLowercase h = h) (hwww : ¬"www.".toList <+: h) (tail : List Char) :
    ¬"www.".toList <+: toAsciiLowercase (h ++ tail) := by
  rw [toAsciiLowercase_append, hlower]
  intro hstarts
  rcases List.prefix_or_prefix_of_prefix hstarts (List.prefix_append h _) with hlong | hshort
  · exact hwww hlong
  · -- a shorter host has no dot
    have hdot := contains_of_isValidHostname hvalid
    obtain ⟨r, hr⟩ := hshort
    have hwords : "www.".toList = ['w', 'w', 'w', '.'] := by decide
    rw [hwords] at hr
    rcases h with - | ⟨a, - | ⟨b, - | ⟨c, - | ⟨d, h⟩⟩⟩⟩
    all_goals simp only [List.cons_append, List.nil_append, List.cons.injEq] at hr
    · exact absurd hdot List.not_mem_nil
    · rw [hr.1] at hdot
      exact absurd hdot (by decide)
    · rw [hr.1, hr.2.1] at hdot
      exact absurd hdot (by decide)
    · rw [hr.1, hr.2.1, hr.2.2.1] at hdot
      exact absurd hdot (by decide)
    · apply hwww
      rw [hr.1, hr.2.1, hr.2.2.1, hr.2.2.2.1, hwords]
      exact ⟨h, rfl⟩

/-- `://` is not reached before the rest. -/
theorem isInfix_append_iff (hslash : '/' ∉ seg) (hlast : seg.getLast? ≠ some ':') (l : List Char) :
    "://".toList <:+: seg ++ l ↔ "://".toList <:+: l := by
  have hpat : "://".toList = [':', '/', '/'] := by decide
  rw [hpat]
  induction seg with
  | nil => rfl
  | cons c seg ih =>
    rw [List.mem_cons, not_or] at hslash
    have hrest : seg.getLast? ≠ some ':' := by
      cases seg with
      | nil => exact fun heq => by cases heq
      | cons d seg =>
        rw [List.getLast?_cons_cons] at hlast
        exact hlast
    have hnot : ¬[':', '/', '/'] <+: c :: (seg ++ l) := by
      intro hstarts
      obtain ⟨hc, hslashes⟩ := List.cons_prefix_cons.1 hstarts
      cases seg with
      | nil =>
        subst hc
        exact hlast rfl
      | cons d seg =>
        have hd := (List.cons_prefix_cons.1 hslashes).1
        exact hslash.2 (hd ▸ List.mem_cons_self)
    have hseg := ih hslash.2 hrest
    rw [List.cons_append, List.infix_cons_iff]
    exact ⟨fun hor => hseg.1 (hor.resolve_left hnot), fun hin => .inr (hseg.2 hin)⟩

theorem UrlTail.isInfix_iff (htail : UrlTail port rest) (hvalid : isValidHostname h = true) :
    "://".toList <:+: h ++ (port ++ rest) ↔ "://".toList <:+: rest := by
  have hslash : '/' ∉ h ++ port := by
    intro hmem
    rcases List.mem_append.1 hmem with hmem | hmem
    · exact ne_of_isHostChar (isHostChar_of_mem hvalid hmem) (show isHostChar '/' = false by decide) rfl
    · rcases htail.port_cases hmem with heq | hchar
      · exact absurd heq (by decide)
      · exact ne_of_isHostChar hchar (show isHostChar '/' = false by decide) rfl
  have hlast : (h ++ port).getLast? ≠ some ':' := by
    intro heq
    have hchar : isHostChar ':' = true := by
      rcases htail.port with rfl | ⟨digits, hne, hdigits, rfl⟩
      · rw [List.append_nil] at heq
        exact isHostChar_of_mem hvalid (List.mem_of_mem_getLast? heq)
      · rw [List.getLast?_append_of_ne_nil _ (List.cons_ne_nil _ _), List.getLast?_cons_of_ne_nil hne] at heq
        exact isHostChar_of_isDigit (hdigits _ (List.mem_of_mem_getLast? heq))
    exact absurd hchar (by decide)
  rw [← List.append_assoc]
  exact isInfix_append_iff hslash hlast rest

/-- The host, and what stands behind it. -/
structure UrlParts (h port rest : List Char) : Prop extends UrlTail port rest where
  valid : isValidHostname h = true
  lower : toAsciiLowercase h = h
  www : ¬"www.".toList <+: h

theorem extractUrlHost_bare (hparts : UrlParts h port rest) :
    extractUrlHost (h ++ (port ++ rest)) = if "://".toList <:+: rest then none else some h := by
  have hchars := fun c hc => isHostChar_of_mem (c := c) hparts.valid hc
  have hdot := contains_of_isValidHostname hparts.valid
  have hscheme := not_scheme hparts.toUrlTail hchars hparts.lower hdot
  have hwww := not_www hparts.valid hparts.lower hparts.www (port ++ rest)
  have hhost : hostOf (h ++ (port ++ rest)) = h :=
    hostOf_append [] hparts.toUrlTail hchars (.inl rfl)
  simp only [extractUrlHost, if_neg hscheme, if_neg hwww, parseHostFromBareToken, hhost,
    normalizeHostForSpeech_host hparts.valid hparts.lower hparts.www]
  have hfind : (find "://".toList (h ++ (port ++ rest))).isSome = true ↔ "://".toList <:+: rest := by
    rw [← hparts.toUrlTail.isInfix_iff hparts.valid, ← not_iff_not, Option.not_isSome_iff_eq_none]
    exact find_eq_none
  simp only [hfind]

theorem stripPrefix_append (pre s : List Char) : stripPrefix pre (pre ++ s) = some s := by
  rw [stripPrefix, if_pos (List.prefix_append pre s), List.drop_left]

theorem parseHostFromUrl_http (s : List Char) :
    parseHostFromUrl ("http://".toList ++ s) = normalizeHostForSpeech (hostOf s) := by
  rw [parseHostFromUrl, stripPrefix_append, Option.some_or, Option.bind_eq_bind, Option.bind_some]

theorem parseHostFromUrl_https (s : List Char) :
    parseHostFromUrl ("https://".toList ++ s) = normalizeHostForSpeech (hostOf s) := by
  have hnone : stripPrefix "http://".toList ("https://".toList ++ s) = none := by
    apply if_neg
    intro hstarts
    have hprefix := List.prefix_of_prefix_length_le hstarts (List.prefix_append "https://".toList s)
      (by decide)
    exact absurd hprefix (by decide)
  rw [parseHostFromUrl, hnone, stripPrefix_append, Option.none_or, Option.some_or, Option.bind_eq_bind,
    Option.bind_some]

theorem isPrefix_toAsciiLowercase_append {pre : List Char} (hpre : toAsciiLowercase pre = pre) (s : List Char) :
    pre <+: toAsciiLowercase (pre ++ s) := by
  rw [toAsciiLowercase_append, hpre]
  exact List.prefix_append _ _

theorem extractUrlHost_http (s : List Char) :
    extractUrlHost ("http://".toList ++ s) = normalizeHostForSpeech (hostOf s) := by
  have hlower : "http://".toList <+: toAsciiLowercase ("http://".toList ++ s) :=
    isPrefix_toAsciiLowercase_append (by decide) s
  simp only [extractUrlHost, if_pos (Or.inl hlower), parseHostFromUrl_http]

theorem extractUrlHost_https (s : List Char) :
    extractUrlHost ("https://".toList ++ s) = normalizeHostForSpeech (hostOf s) := by
  have hlower : "https://".toList <+: toAsciiLowercase ("https://".toList ++ s) :=
    isPrefix_toAsciiLowercase_append (by decide) s
  simp only [extractUrlHost, if_pos (Or.inr hlower), parseHostFromUrl_https]

theorem extractUrlHost_www (hparts : UrlParts h port rest) :
    extractUrlHost ("www.".toList ++ (h ++ (port ++ rest))) = some h := by
  have hchars := isHostChar_of_mem_www hparts.valid
  have hlowered : toAsciiLowercase "www.".toList = "www.".toList := by decide
  have hlower : toAsciiLowercase ("www.".toList ++ h) = "www.".toList ++ h := by
    rw [toAsciiLowercase_append, hparts.lower, hlowered]
  have hdot : '.' ∈ "www.".toList ++ h := List.mem_append_right _ (contains_of_isValidHostname hparts.valid)
  have hscheme := not_scheme hparts.toUrlTail hchars hlower hdot
  have hwww : "www.".toList <+: toAsciiLowercase ("www.".toList ++ (h ++ (port ++ rest))) :=
    isPrefix_toAsciiLowercase_append hlowered _
  have hhost := hostOf_append [] hparts.toUrlTail hchars (.inl rfl)
  rw [List.nil_append, List.append_assoc] at hhost
  rw [List.append_assoc] at hscheme
  simp only [extractUrlHost, if_neg hscheme, if_pos hwww, parseHostFromUrl_https, hhost,
    normalizeHostForSpeech_www hparts.valid hparts.lower]

/-- Every form of a link gives its host. -/
structure AllForms (h port rest : List Char) : Prop where
  bare : extractUrlHost (h ++ (port ++ rest)) = some h
  www : extractUrlHost ("www.".toList ++ (h ++ (port ++ rest))) = some h
  scheme : ∀ scheme ∈ ["http://".toList, "https://".toList],
    extractUrlHost (scheme ++ (h ++ (port ++ rest))) = some h
  user : ∀ scheme ∈ ["http://".toList, "https://".toList], ∀ u : List Char, (∀ c ∈ u, c ∉ ['/', '?', '#']) →
    extractUrlHost (scheme ++ (u ++ '@' :: (h ++ (port ++ rest)))) = some h

/-- Behind a scheme, a user makes no difference. -/
theorem extractUrlHost_scheme (user : List Char) (hparts : UrlParts h port rest) {scheme : List Char}
    (hscheme : scheme ∈ ["http://".toList, "https://".toList])
    (huser : user = [] ∨ ∃ u, (∀ c ∈ u, isPathStart c = false) ∧ user = u ++ ['@']) :
    extractUrlHost (scheme ++ (user ++ (h ++ (port ++ rest)))) = some h := by
  have hhost := hostOf_append user hparts.toUrlTail (fun c hc => isHostChar_of_mem hparts.valid hc) huser
  have hspoken := normalizeHostForSpeech_host hparts.valid hparts.lower hparts.www
  simp only [List.mem_cons, List.not_mem_nil, or_false] at hscheme
  rcases hscheme with rfl | rfl
  · rw [extractUrlHost_http, hhost, hspoken]
  · rw [extractUrlHost_https, hhost, hspoken]

/-- All forms agree exactly if the rest has no `://`. -/
theorem extractUrlHost_allForms_iff (h port rest : List Char) (hparts : UrlParts h port rest) :
    AllForms h port rest ↔ ¬"://".toList <:+: rest := by
  constructor
  · intro hall hscheme
    have hbare := hall.bare
    rw [extractUrlHost_bare hparts, if_pos hscheme] at hbare
    cases hbare
  · intro hscheme
    constructor
    · rw [extractUrlHost_bare hparts, if_neg hscheme]
    · exact extractUrlHost_www hparts
    · intro scheme hmem
      exact extractUrlHost_scheme [] hparts hmem (.inl rfl)
    · intro scheme hmem u hu
      have huser : ∀ c ∈ u, isPathStart c = false := by
        intro c hc
        have hnot := hu c hc
        simp only [List.mem_cons, List.not_mem_nil, or_false, not_or] at hnot
        simp only [isPathStart, Bool.or_eq_false_iff, beq_eq_false_iff_ne]
        exact ⟨⟨hnot.1, hnot.2.1⟩, hnot.2.2⟩
      have hlink := extractUrlHost_scheme (u ++ ['@']) hparts hmem (.inr ⟨u, huser, rfl⟩)
      rw [List.append_assoc, List.singleton_append] at hlink
      exact hlink

theorem urlParts_alamode {digits path : List Char} (hdigits : digits ≠ []) (hall : digits.all Char.isDigit = true)
    (hpath : path.head? = some '/') : UrlParts "alamode.dev".toList (':' :: digits) path where
  port := .inr ⟨digits, hdigits, List.all_eq_true.1 hall, rfl⟩
  rest := by
    obtain ⟨r, hr⟩ := List.head?_eq_some_iff.1 hpath
    exact .inr ⟨'/', r, hr, List.mem_cons_self⟩
  valid := by decide
  lower := by decide
  www := by decide

theorem extractUrlHost_allForms_iff_alamode :
    AllForms "alamode.dev".toList ":8080".toList "/black?brie=1".toList ↔
      ¬"://".toList <:+: "/black?brie=1".toList := by
  have hport : ":8080".toList = ':' :: "8080".toList := by decide
  rw [hport]
  exact extractUrlHost_allForms_iff _ _ _
    (urlParts_alamode (by decide) (by decide) (by decide))

/-- A query with another URL makes a host without a scheme no link. -/
theorem nested_url_refused :
    ¬∀ h port rest : List Char, UrlParts h port rest → AllForms h port rest := by
  intro hclaim
  have hparts := urlParts_alamode (show "80".toList ≠ [] by decide) (by decide)
    (show "/?next=https://x.org".toList.head? = some '/' by decide)
  have hnone : extractUrlHost ("alamode.dev".toList ++ (':' :: "80".toList ++ "/?next=https://x.org".toList)) =
      none := by
    decide
  have hbare := (hclaim _ _ _ hparts).bare
  rw [hnone] at hbare
  cases hbare

end MumbleSip
