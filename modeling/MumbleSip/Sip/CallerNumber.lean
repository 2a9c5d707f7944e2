import MumbleSip.Lib.Replace

/-!
# The number of a caller

A caller is known by a number, which `extract_phone_number` reads from the remote party's header. It takes the
text between the first `sip:` and the next `@` for the user, and keeps the digits of it.
-/

namespace MumbleSip

open Text

/-- The characters that are kept of a user part. -/
def digitsOf (userPart : List Char) : List Char := userPart.filter Char.isDigit

/-- What is made of the digits: a country code before ten digits is dropped. -/
def phoneNumber (digits : List Char) : Option (List Char) :=
  if digits = [] then none
  else if digits.length = 11 ∧ ['1'] <+: digits then some (digits.drop 1)
  else some digits

def extractPhoneNumber (remoteInfo : List Char) : Option (List Char) := do
  let sipStart := (← find "sip:".toList remoteInfo) + 4
  let atPos ← find ['@'] (remoteInfo.drop sipStart)
  let userPart := (remoteInfo.drop sipStart).take atPos
  phoneNumber (digitsOf userPart)

variable {s d u v h q r xs ys : List Char} {i : Nat}

/-- `<sip:u@h>` -/
def bareUri (u h : List Char) : List Char := "<sip:".toList ++ (u ++ '@' :: (h ++ ['>']))

/-- `"d" <sip:u@h>` -/
def quotedUri (d u h : List Char) : List Char := '"' :: (d ++ '"' :: ' ' :: bareUri u h)

/-- `sip:u@h` -/
def plainUri (u h : List Char) : List Char := "sip:".toList ++ (u ++ '@' :: h)

def TenDigits (xs : List Char) : Prop := xs.length = 10 ∧ ∀ c ∈ xs, c.isDigit

/-- Equal up to a leading country code before ten digits. -/
def SameNumber (xs ys : List Char) : Prop :=
  xs = ys ∨ xs = '1' :: ys ∧ TenDigits ys ∨ ys = '1' :: xs ∧ TenDigits xs

/-! ### Digits -/

theorem isDigit_of_mem_digitsOf {c : Char} (hc : c ∈ digitsOf u) : c.isDigit = true := (List.mem_filter.1 hc).2

theorem phoneNumber_of_code (hlength : xs.length = 10) : phoneNumber ('1' :: xs) = some xs := by
  have hcode : ('1' :: xs).length = 11 ∧ ['1'] <+: '1' :: xs :=
    ⟨congrArg (· + 1) hlength, List.cons_prefix_cons.2 ⟨rfl, List.nil_prefix⟩⟩
  rw [phoneNumber, if_neg (List.cons_ne_nil _ _), if_pos hcode]
  rfl

theorem phoneNumber_cases (xs : List Char) :
    xs = [] ∧ phoneNumber xs = none ∨
      (∃ ys, xs = '1' :: ys ∧ ys.length = 10 ∧ phoneNumber xs = some ys) ∨
      xs ≠ [] ∧ (∀ ys, xs = '1' :: ys → ys.length ≠ 10) ∧ phoneNumber xs = some xs := by
  by_cases hnil : xs = []
  · exact .inl ⟨hnil, if_pos hnil⟩
  · by_cases hcode : xs.length = 11 ∧ ['1'] <+: xs
    · obtain ⟨ys, rfl⟩ := hcode.2
      have hlength : ys.length = 10 := Nat.succ.inj hcode.1
      exact .inr (.inl ⟨ys, rfl, hlength, phoneNumber_of_code hlength⟩)
    · refine .inr (.inr ⟨hnil, ?_, ?_⟩)
      · rintro ys rfl hlength
        exact hcode ⟨congrArg (· + 1) hlength, List.cons_prefix_cons.2 ⟨rfl, List.nil_prefix⟩⟩
      · rw [phoneNumber, if_neg hnil, if_neg hcode]

theorem SameNumber.phoneNumber_eq (hsame : SameNumber xs ys) : phoneNumber xs = phoneNumber ys := by
  have hcode : ∀ {xs ys}, xs = '1' :: ys → TenDigits ys → phoneNumber xs = phoneNumber ys := by
    rintro xs ys rfl hten
    rw [phoneNumber_of_code hten.1]
    rcases phoneNumber_cases ys with ⟨rfl, _⟩ | ⟨zs, rfl, hlength, _⟩ | ⟨_, _, heq⟩
    · cases hten.1
    · have := hten.1
      rw [List.length_cons, hlength] at this
      cases this
    · exact heq.symm
  rcases hsame with rfl | ⟨heq, hten⟩ | ⟨heq, hten⟩
  · rfl
  · exact hcode heq hten
  · exact (hcode heq hten).symm

theorem phoneNumber_eq_iff (hxs : ∀ c ∈ xs, c.isDigit) (hys : ∀ c ∈ ys, c.isDigit) :
    phoneNumber xs = phoneNumber ys ↔ SameNumber xs ys := by
  refine ⟨fun heq => ?_, SameNumber.phoneNumber_eq⟩
  rcases phoneNumber_cases xs with ⟨rfl, hx⟩ | ⟨zs, rfl, hlength, hx⟩ | ⟨_, hcode, hx⟩
  · rcases phoneNumber_cases ys with ⟨rfl, _⟩ | ⟨_, _, _, hy⟩ | ⟨_, _, hy⟩
    · exact .inl rfl
    · rw [hx, hy] at heq
      cases heq
    · rw [hx, hy] at heq
      cases heq
  · rcases phoneNumber_cases ys with ⟨_, hy⟩ | ⟨zs', rfl, hlength', hy⟩ | ⟨_, _, hy⟩
    · rw [hx, hy] at heq
      cases heq
    · rw [hx, hy] at heq
      exact .inl (congrArg ('1' :: ·) (Option.some.inj heq))
    · rw [hx, hy] at heq
      have hz : zs = ys := Option.some.inj heq
      exact .inr (.inl ⟨congrArg ('1' :: ·) hz, hz ▸ hlength, hys⟩)
  · rcases phoneNumber_cases ys with ⟨_, hy⟩ | ⟨zs', rfl, hlength', hy⟩ | ⟨_, _, hy⟩
    · rw [hx, hy] at heq
      cases heq
    · rw [hx, hy] at heq
      have hz : xs = zs' := Option.some.inj heq
      exact .inr (.inr ⟨congrArg ('1' :: ·) hz.symm, hz ▸ hlength', hxs⟩)
    · rw [hx, hy] at heq
      exact .inl (Option.some.inj heq)

/-! ### The user part -/

theorem extractPhoneNumber_eq (hsip : find "sip:".toList s = some i) (hrest : s.drop (i + 4) = u ++ '@' :: r)
    (hu : '@' ∉ u) : extractPhoneNumber s = phoneNumber (digitsOf u) := by
  have hat : find ['@'] (u ++ '@' :: r) = some u.length := by
    have hstart : find ['@'] ('@' :: r) = some 0 := find_cons_of_isPrefix (List.prefix_append ['@'] r)
    rw [find_append hu, hstart, Option.map_some, Nat.zero_add]
  unfold extractPhoneNumber
  simp only [hsip, Option.bind_eq_bind, Option.bind_some, hrest, hat, List.take_left]

theorem find_bareUri (u h : List Char) : find "sip:".toList (bareUri u h) = some 1 := by
  have hstart : find "sip:".toList ("sip:".toList ++ (u ++ '@' :: (h ++ ['>']))) = some 0 :=
    find_cons_of_isPrefix (List.prefix_append "sip:".toList _)
  have happend := find_append (show 's' ∉ ['<'] by decide) "ip:".toList
    ("sip:".toList ++ (u ++ '@' :: (h ++ ['>'])))
  have hpat : 's' :: "ip:".toList = "sip:".toList := by decide
  have huri : bareUri u h = ['<'] ++ ("sip:".toList ++ (u ++ '@' :: (h ++ ['>']))) := by
    have hopen : "<sip:".toList = ['<'] ++ "sip:".toList := by decide
    delta bareUri
    rw [hopen, List.append_assoc]
  rw [hpat, hstart] at happend
  rw [huri, happend]
  rfl

theorem drop_bareUri (u h : List Char) : (bareUri u h).drop (1 + 4) = u ++ '@' :: (h ++ ['>']) :=
  List.drop_left' (by decide)

theorem extractPhoneNumber_bareUri (hu : '@' ∉ u) (h : List Char) :
    extractPhoneNumber (bareUri u h) = phoneNumber (digitsOf u) :=
  extractPhoneNumber_eq (find_bareUri u h) (drop_bareUri u h) hu

theorem extractPhoneNumber_plainUri (hu : '@' ∉ u) (h : List Char) :
    extractPhoneNumber (plainUri u h) = phoneNumber (digitsOf u) := by
  have hstart : find "sip:".toList (plainUri u h) = some 0 :=
    find_cons_of_isPrefix (List.prefix_append "sip:".toList _)
  exact extractPhoneNumber_eq hstart (List.drop_left' (by decide)) hu

/-! ### Display names -/

/-- What the header says of the user behind the first `sip:` of the display name, `q`, is the same number as
`u`. Without an `@`, the digits of the user follow those of the display name. -/
def ReadsSameNumber (q u : List Char) : Prop :=
  if '@' ∈ q then SameNumber (digitsOf (q.takeWhile (· != '@'))) (digitsOf u)
  else digitsOf q = [] ∨ digitsOf q = ['1'] ∧ (digitsOf u).length = 10

/-- The display name has no `sip:`, or the same number behind it. -/
def HarmlessName (d u : List Char) : Prop :=
  ∀ i, find "sip:".toList d = some i → ReadsSameNumber (d.drop (i + 4)) u

theorem phoneNumber_append_iff (hq : ∀ c ∈ q, c.isDigit) (hu : ∀ c ∈ u, c.isDigit) :
    phoneNumber (q ++ u) = phoneNumber u ↔ q = [] ∨ q = ['1'] ∧ u.length = 10 := by
  have hall : ∀ c ∈ q ++ u, c.isDigit := fun c hc => (List.mem_append.1 hc).elim (hq c) (hu c)
  rw [phoneNumber_eq_iff hall hu]
  constructor
  · rintro (heq | ⟨heq, hten⟩ | ⟨heq, _⟩)
    · exact .inl (List.append_left_eq_self.1 heq)
    · exact .inr ⟨List.append_cancel_right heq, hten.1⟩
    · have := congrArg List.length heq
      rw [List.length_cons, List.length_append] at this
      omega
  · rintro (rfl | ⟨rfl, hlength⟩)
    · exact .inl rfl
    · exact .inr (.inl ⟨rfl, hlength, hu⟩)

theorem digitsOf_append (u v : List Char) : digitsOf (u ++ v) = digitsOf u ++ digitsOf v :=
  List.filter_append u v

theorem find_sip_cons {c : Char} (hc : c ≠ 's') (s : List Char) :
    find "sip:".toList (c :: s) = (find "sip:".toList s).map (· + 1) := by
  have hpat : "sip:".toList = 's' :: "ip:".toList := by decide
  rw [hpat]
  exact find_cons_of_not_isPrefix fun h => hc (List.cons_prefix_cons.1 h).1.symm

theorem extractPhoneNumber_quotedUri_of_none (hd : find "sip:".toList d = none) (hu : '@' ∉ u)
    (h : List Char) : extractPhoneNumber (quotedUri d u h) = phoneNumber (digitsOf u) := by
  have haddress : find "sip:".toList (' ' :: bareUri u h) = some 2 := by
    rw [find_sip_cons (by decide), find_bareUri]
    rfl
  have hname : find "sip:".toList (d ++ '"' :: ' ' :: bareUri u h) = some (2 + (d.length + 1)) := by
    rw [find_append_cons (by decide) (find_eq_none.1 hd), haddress]
    rfl
  have hsip : find "sip:".toList (quotedUri d u h) = some (2 + (d.length + 1) + 1) := by
    rw [quotedUri, find_sip_cons (by decide), hname]
    rfl
  have hrest : (quotedUri d u h).drop (2 + (d.length + 1) + 1 + 4) = u ++ '@' :: (h ++ ['>']) := by
    have hpre : quotedUri d u h = '"' :: (d ++ ['"', ' ']) ++ bareUri u h := by
      rw [quotedUri, List.cons_append, List.append_assoc]
      rfl
    have hlength : 2 + (d.length + 1) + 1 + 4 = ('"' :: (d ++ ['"', ' '])).length + (1 + 4) := by
      rw [List.length_cons, List.length_append, List.length_cons, List.length_singleton]
      omega
    rw [hpre, hlength, ← List.drop_drop, List.drop_left, drop_bareUri]
  exact extractPhoneNumber_eq hsip hrest hu

theorem exists_eq_takeWhile_append (hq : '@' ∈ q) : ∃ rest, q = q.takeWhile (· != '@') ++ '@' :: rest := by
  induction q with
  | nil => exact absurd hq List.not_mem_nil
  | cons c q ih =>
    by_cases hc : c = '@'
    · subst hc
      exact ⟨q, rfl⟩
    · obtain ⟨rest, hrest⟩ := ih ((List.mem_cons.1 hq).resolve_left (Ne.symm hc))
      have hkeep : (c :: q).takeWhile (· != '@') = c :: q.takeWhile (· != '@') :=
        List.takeWhile_cons_of_pos (bne_iff_ne.2 hc)
      refine ⟨rest, ?_⟩
      rw [hkeep, List.cons_append, ← hrest]

theorem not_mem_takeWhile (q : List Char) : '@' ∉ q.takeWhile (· != '@') := by
  intro hmem
  have hkept := List.all_eq_true.1 List.all_takeWhile _ hmem
  exact bne_iff_ne.1 hkept rfl

/-- A display name with `sip:` is read in place of the address. -/
theorem extractPhoneNumber_quotedUri_of_some (hd : find "sip:".toList d = some i) (hu : '@' ∉ u)
    (h : List Char) :
    extractPhoneNumber (quotedUri d u h) = phoneNumber (digitsOf u) ↔ ReadsSameNumber (d.drop (i + 4)) u := by
  have hnonempty : "sip:".toList ≠ [] := by decide
  have hlength : i + 4 ≤ d.length := length_le_of_find hnonempty hd
  have hsip : find "sip:".toList (quotedUri d u h) = some (i + 1) := by
    rw [quotedUri, find_sip_cons (by decide), find_append_of_eq_some hnonempty hd]
    rfl
  have hdrop : (quotedUri d u h).drop (i + 1 + 4) = d.drop (i + 4) ++ '"' :: ' ' :: bareUri u h := by
    rw [quotedUri, Nat.add_right_comm, List.drop_succ_cons, List.drop_append_of_le_length hlength]
  generalize d.drop (i + 4) = q at hdrop ⊢
  unfold ReadsSameNumber
  by_cases hq : '@' ∈ q
  · obtain ⟨rest, hrest⟩ := exists_eq_takeWhile_append hq
    rw [hrest, List.append_assoc, List.cons_append] at hdrop
    rw [if_pos hq, extractPhoneNumber_eq hsip hdrop (not_mem_takeWhile q)]
    exact phoneNumber_eq_iff (fun c => isDigit_of_mem_digitsOf) fun c => isDigit_of_mem_digitsOf
  · have huser : '@' ∉ q ++ ('"' :: ' ' :: "<sip:".toList ++ u) := by
      have hopen : '@' ∉ '"' :: ' ' :: "<sip:".toList := by decide
      rw [List.mem_append, List.mem_append, not_or, not_or]
      exact ⟨hq, hopen, hu⟩
    have hassoc : q ++ '"' :: ' ' :: bareUri u h =
        q ++ ('"' :: ' ' :: "<sip:".toList ++ u) ++ '@' :: (h ++ ['>']) := by
      delta bareUri
      simp only [List.append_assoc, List.cons_append]
    have hdigits : digitsOf ('"' :: ' ' :: "<sip:".toList) = [] := by decide
    rw [hassoc] at hdrop
    rw [if_neg hq, extractPhoneNumber_eq hsip hdrop huser, digitsOf_append, digitsOf_append, hdigits,
      List.nil_append]
    exact phoneNumber_append_iff (fun c => isDigit_of_mem_digitsOf) fun c => isDigit_of_mem_digitsOf

/-- The display name leaves the number as it is exactly if it is harmless. -/
theorem extractPhoneNumber_quotedUri_iff (d u h : List Char) (hu : '@' ∉ u) :
    extractPhoneNumber (quotedUri d u h) = extractPhoneNumber (bareUri u h) ↔ HarmlessName d u := by
  rw [extractPhoneNumber_bareUri hu]
  unfold HarmlessName
  cases hd : find "sip:".toList d with
  | none =>
    refine iff_of_true (extractPhoneNumber_quotedUri_of_none hd hu h) fun i hi => ?_
    cases hi
  | some i =>
    rw [extractPhoneNumber_quotedUri_of_some hd hu h]
    constructor
    · intro hreads j hj
      exact Option.some.inj hj ▸ hreads
    · intro hall
      exact hall i rfl

theorem extractPhoneNumber_quotedUri_iff_anna :
    extractPhoneNumber (quotedUri "Anna".toList "1234".toList "host".toList) =
      extractPhoneNumber (bareUri "1234".toList "host".toList) ↔ HarmlessName "Anna".toList "1234".toList :=
  extractPhoneNumber_quotedUri_iff _ _ _ (by decide)

/-- A display name that is read as another caller. -/
theorem extractPhoneNumber_borrowed :
    extractPhoneNumber (quotedUri "sip:5551234567@x".toList "1234".toList "host".toList) ≠
      extractPhoneNumber (bareUri "1234".toList "host".toList) := by
  decide

/-! ### User parts -/

/-- The visual separators of a telephone number. -/
def separators : List Char := ['+', '-', '.', '(', ')', ' ']

def withoutSeparators (u : List Char) : List Char := u.filter fun c => !separators.contains c

/-- Equal up to separators and a leading country code before ten digits. -/
def SameTelephone (u v : List Char) : Prop := SameNumber (withoutSeparators u) (withoutSeparators v)

/-- Nothing but digits and separators. -/
def IsTelephone (u : List Char) : Prop := ∀ c ∈ u, c.isDigit ∨ c ∈ separators

theorem not_contains_separators {c : Char} (hc : c.isDigit = true) : separators.contains c = false := by
  have hnone : separators.all (fun c => !c.isDigit) = true := by decide
  cases hsep : separators.contains c with
  | false => rfl
  | true =>
    have hnot := List.all_eq_true.1 hnone c (List.contains_iff_mem.1 hsep)
    rw [hc] at hnot
    cases hnot

theorem digitsOf_withoutSeparators (u : List Char) : digitsOf (withoutSeparators u) = digitsOf u := by
  rw [digitsOf, withoutSeparators, List.filter_filter]
  apply List.filter_congr
  intro c _
  cases hc : c.isDigit with
  | false => rfl
  | true =>
    rw [not_contains_separators hc]
    rfl

theorem IsTelephone.withoutSeparators_eq (hu : IsTelephone u) : withoutSeparators u = digitsOf u := by
  apply List.filter_congr
  intro c hc
  cases hdigit : c.isDigit with
  | true =>
    rw [not_contains_separators hdigit]
    rfl
  | false =>
    have hsep := (hu c hc).resolve_left (by rw [hdigit]; exact Bool.false_ne_true)
    rw [List.contains_iff_mem.2 hsep]
    rfl

theorem isTelephone_of_digits (hu : ∀ c ∈ withoutSeparators u, c.isDigit) : IsTelephone u := by
  intro c hc
  by_cases hsep : c ∈ separators
  · exact .inr hsep
  · refine .inl (hu c (List.mem_filter.2 ⟨hc, ?_⟩))
    rw [Bool.not_eq_true', ← Bool.not_eq_true, List.contains_iff_mem]
    exact hsep

theorem SameTelephone.sameNumber (hsame : SameTelephone u v) : SameNumber (digitsOf u) (digitsOf v) := by
  have hcode : ∀ {u v}, withoutSeparators u = '1' :: withoutSeparators v → TenDigits (withoutSeparators v) →
      digitsOf u = '1' :: digitsOf v ∧ TenDigits (digitsOf v) := by
    intro u v heq hten
    have hv : digitsOf v = withoutSeparators v := by
      rw [← digitsOf_withoutSeparators v]
      exact List.filter_eq_self.2 hten.2
    rw [← digitsOf_withoutSeparators u, heq, hv]
    exact ⟨congrArg ('1' :: ·) (List.filter_eq_self.2 hten.2), hten⟩
  rcases hsame with heq | ⟨heq, hten⟩ | ⟨heq, hten⟩
  · refine .inl ?_
    rw [← digitsOf_withoutSeparators u, heq, digitsOf_withoutSeparators]
  · exact .inr (.inl (hcode heq hten))
  · exact .inr (.inr (hcode heq hten))

/-- Another character than digits and separators leaves no room for a country code. -/
theorem SameTelephone.cases (hsame : SameTelephone u v) :
    withoutSeparators u = withoutSeparators v ∨ IsTelephone u ∧ IsTelephone v := by
  have hcode : ∀ {u v}, withoutSeparators u = '1' :: withoutSeparators v → TenDigits (withoutSeparators v) →
      IsTelephone u ∧ IsTelephone v := by
    intro u v heq hten
    refine ⟨isTelephone_of_digits fun c hc => ?_, isTelephone_of_digits hten.2⟩
    rw [heq] at hc
    rcases List.mem_cons.1 hc with rfl | hmem
    · rfl
    · exact hten.2 c hmem
  rcases hsame with heq | ⟨heq, hten⟩ | ⟨heq, hten⟩
  · exact .inl heq
  · exact .inr (hcode heq hten)
  · exact .inr (hcode heq hten).symm

/-- Users of one number are spellings of it, and spellings of one number get one number. -/
def Separates (u v h : List Char) : Prop :=
  (∀ n, extractPhoneNumber (plainUri u h) = some n → extractPhoneNumber (plainUri v h) = some n →
    SameTelephone u v) ∧
  (SameTelephone u v → extractPhoneNumber (plainUri u h) = extractPhoneNumber (plainUri v h))

/-- Two users are told apart exactly if they have only digits and separators, or differ in no more than
separators, or in their digits, or the first one has no digits. -/
theorem extractPhoneNumber_separates_iff (u v h : List Char) (hu : '@' ∉ u) (hv : '@' ∉ v) :
    Separates u v h ↔ IsTelephone u ∧ IsTelephone v ∨ withoutSeparators u = withoutSeparators v ∨
      digitsOf u = [] ∨ ¬SameNumber (digitsOf u) (digitsOf v) := by
  have hnumber : phoneNumber (digitsOf u) = phoneNumber (digitsOf v) ↔ SameNumber (digitsOf u) (digitsOf v) :=
    phoneNumber_eq_iff (fun c => isDigit_of_mem_digitsOf) fun c => isDigit_of_mem_digitsOf
  unfold Separates
  rw [extractPhoneNumber_plainUri hu, extractPhoneNumber_plainUri hv]
  constructor
  · intro hsep
    by_cases hsame : SameNumber (digitsOf u) (digitsOf v)
    · cases hn : phoneNumber (digitsOf u) with
      | none =>
        rcases phoneNumber_cases (digitsOf u) with ⟨hnil, _⟩ | ⟨_, _, _, hsome⟩ | ⟨_, _, hsome⟩
        · exact .inr (.inr (.inl hnil))
        · rw [hsome] at hn
          cases hn
        · rw [hsome] at hn
          cases hn
      | some n =>
        have htelephone := hsep.1 n hn (hsame.phoneNumber_eq ▸ hn)
        rcases htelephone.cases with heq | hboth
        · exact .inr (.inl heq)
        · exact .inl hboth
    · exact .inr (.inr (.inr hsame))
  · intro hcond
    refine ⟨fun n hn hn' => ?_, fun htelephone => htelephone.sameNumber.phoneNumber_eq⟩
    have hsame := hnumber.1 (hn.trans hn'.symm)
    rcases hcond with ⟨hu', hv'⟩ | heq | hnil | hnot
    · rw [SameTelephone, hu'.withoutSeparators_eq, hv'.withoutSeparators_eq]
      exact hsame
    · exact .inl heq
    · rw [hnil] at hn
      cases hn
    · exact absurd hsame hnot

theorem extractPhoneNumber_separates_iff_anna :
    Separates "+1 (720) 491-9941".toList "7204919941".toList "host".toList ↔
      IsTelephone "+1 (720) 491-9941".toList ∧ IsTelephone "7204919941".toList ∨
        withoutSeparators "+1 (720) 491-9941".toList = withoutSeparators "7204919941".toList ∨
        digitsOf "+1 (720) 491-9941".toList = [] ∨
        ¬SameNumber (digitsOf "+1 (720) 491-9941".toList) (digitsOf "7204919941".toList) :=
  extractPhoneNumber_separates_iff _ _ _ (by decide) (by decide)

/-- Two users who become one caller. -/
theorem extractPhoneNumber_merged : ¬Separates "bob1".toList "alice1".toList "host".toList := by
  intro hsep
  have hone : ∀ u, u = "bob1".toList ∨ u = "alice1".toList →
      extractPhoneNumber (plainUri u "host".toList) = some ['1'] := by
    rintro u (rfl | rfl) <;> decide
  rcases hsep.1 ['1'] (hone _ (.inl rfl)) (hone _ (.inr rfl)) with heq | ⟨heq, _⟩ | ⟨heq, _⟩
  · exact absurd heq (by decide)
  · exact absurd heq (by decide)
  · exact absurd heq (by decide)

end MumbleSip
