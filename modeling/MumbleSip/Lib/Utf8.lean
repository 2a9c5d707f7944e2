import Mathlib.Algebra.GroupWithZero.Nat
import Mathlib.Data.List.Induction
import MumbleSip.Lib.Replace

/-!
# Positions in bytes

A string is the list of its characters, and a position in it counts the bytes of their UTF-8 encodings. A slice
whose bounds are out of order, beyond the end or within a character does not exist. A position that has been
counted in characters has a slice on either side of it; what is found of an ASCII pattern in the bytes is where
the characters are.
-/

namespace Utf8

open Text

/-! ### Bytes -/

def encode (s : List Char) : List UInt8 := s.flatMap String.utf8EncodeChar

def byteLen (s : List Char) : Nat := (s.map Char.utf8Size).sum

/-- The position of a character, or of the end. -/
def offset (s : List Char) (k : Nat) : Nat := byteLen (s.take k)

/-- `u8::to_ascii_lowercase` -/
def lowerByte (b : UInt8) : UInt8 := if 65 ≤ b ∧ b ≤ 90 then b + 32 else b

/-! ### Slices -/

/-- The two parts of a string at a position. -/
def splitAt : List Char → Nat → Option (List Char × List Char)
  | s, 0 => some ([], s)
  | [], _ + 1 => none
  | c :: s, i + 1 =>
    if c.utf8Size ≤ i + 1 then (splitAt s (i + 1 - c.utf8Size)).map fun parts => (c :: parts.1, parts.2)
    else none

/-- `&s[a..]` -/
def sliceFrom (s : List Char) (a : Nat) : Option (List Char) := (splitAt s a).map Prod.snd

/-- `&s[..b]` -/
def sliceTo (s : List Char) (b : Nat) : Option (List Char) := (splitAt s b).map Prod.fst

/-- `&s[a..b]` -/
def slice (s : List Char) (a b : Nat) : Option (List Char) :=
  if a ≤ b then (sliceFrom s a).bind fun rest => sliceTo rest (b - a) else none

/-! ### Searches -/

/-- `char_indices`, from a position on. -/
def charIndicesFrom : Nat → List Char → List (Nat × Char)
  | _, [] => []
  | i, c :: s => (i, c) :: charIndicesFrom (i + c.utf8Size) s

def charIndices (s : List Char) : List (Nat × Char) := charIndicesFrom 0 s

/-- `find` of a character -/
def findChar (p : Char → Bool) (s : List Char) : Option Nat :=
  ((charIndices s).find? fun entry => p entry.2).map Prod.fst

/-- `find` of a string -/
def findStr (pat s : List Char) : Option Nat := (find pat s).map (offset s)

/-- `windows` of a length above zero -/
def windows {α : Type} (n : Nat) : List α → List (List α)
  | [] => []
  | a :: l => if n ≤ (a :: l).length then (a :: l).take n :: windows n l else []

/-! ### Offsets -/

variable {s : List Char} {c : Char} {k : Nat}

theorem byteLen_append (s t : List Char) : byteLen (s ++ t) = byteLen s + byteLen t := by
  rw [byteLen, List.map_append, List.sum_append, byteLen, byteLen]

theorem byteLen_cons (c : Char) (s : List Char) : byteLen (c :: s) = c.utf8Size + byteLen s := by
  rw [byteLen, List.map_cons, List.sum_cons, byteLen]

theorem length_encode (s : List Char) : (encode s).length = byteLen s := by
  induction s with
  | nil => rfl
  | cons c s ih => rw [encode, List.flatMap_cons, List.length_append, ← encode, ih, byteLen_cons,
      String.length_utf8EncodeChar]

theorem byteLen_pos (hs : s ≠ []) : 0 < byteLen s := by
  cases s with
  | nil => exact absurd rfl hs
  | cons c s =>
    have hpos := c.utf8Size_pos
    rw [byteLen_cons]
    omega

theorem offset_length (s : List Char) : offset s s.length = byteLen s := by rw [offset, List.take_length]

theorem offset_cons (c : Char) (s : List Char) (k : Nat) :
    offset (c :: s) (k + 1) = c.utf8Size + offset s k := by
  rw [offset, List.take_succ_cons, byteLen_cons, offset]

theorem offset_add (s : List Char) (j k : Nat) : offset s (j + k) = offset s j + offset (s.drop j) k := by
  rw [offset, List.take_add, byteLen_append, offset, offset]

theorem offset_mono {j : Nat} (h : j ≤ k) : offset s j ≤ offset s k := by
  obtain ⟨i, rfl⟩ := Nat.exists_eq_add_of_le h
  rw [offset_add]
  exact Nat.le_add_right _ _

theorem offset_lt {j : Nat} (hj : j < k) (hk : k ≤ s.length) : offset s j < offset s k := by
  obtain ⟨i, rfl⟩ := Nat.exists_eq_add_of_le (Nat.le_of_lt hj)
  have hne : (s.drop j).take i ≠ [] := by
    intro hnil
    have hlength := congrArg List.length hnil
    rw [List.length_take, List.length_drop, List.length_nil] at hlength
    omega
  rw [offset_add]
  exact Nat.lt_add_of_pos_right (byteLen_pos hne)

theorem offset_succ_of_drop {rest : List Char} (hdrop : s.drop k = c :: rest) (hc : c.utf8Size = 1) :
    offset s (k + 1) = offset s k + 1 := by
  rw [offset_add, hdrop, offset_cons, hc]
  rfl

/-! ### Parts -/

theorem splitAt_append (s t : List Char) : splitAt (s ++ t) (byteLen s) = some (s, t) := by
  induction s with
  | nil => cases t <;> rfl
  | cons c s ih =>
    have hpos := c.utf8Size_pos
    obtain ⟨i, hi⟩ := Nat.exists_eq_succ_of_ne_zero (show byteLen (c :: s) ≠ 0 by rw [byteLen_cons]; omega)
    have hlen := byteLen_cons c s
    have hrest : i + 1 - c.utf8Size = byteLen s := by omega
    rw [hi, List.cons_append, splitAt, if_pos (by omega), hrest, ih]
    rfl

theorem splitAt_offset (s : List Char) (k : Nat) : splitAt s (offset s k) = some (s.take k, s.drop k) := by
  have h := splitAt_append (s.take k) (s.drop k)
  rwa [List.take_append_drop] at h

theorem sliceFrom_offset (s : List Char) (k : Nat) : sliceFrom s (offset s k) = some (s.drop k) := by
  rw [sliceFrom, splitAt_offset, Option.map_some]

theorem sliceTo_offset (s : List Char) (k : Nat) : sliceTo s (offset s k) = some (s.take k) := by
  rw [sliceTo, splitAt_offset, Option.map_some]

theorem slice_offset (s : List Char) (j k : Nat) :
    slice s (offset s j) (offset s (j + k)) = some ((s.drop j).take k) := by
  have hsub : offset s (j + k) - offset s j = offset (s.drop j) k := by
    rw [offset_add]
    exact Nat.add_sub_cancel_left _ _
  rw [slice, if_pos (offset_mono (Nat.le_add_right j k)), sliceFrom_offset, Option.bind_some, hsub,
    sliceTo_offset]

/-- Two bytes are one character here. -/
example : slice "aé".toList 1 3 = some ['é'] ∧ slice "aé".toList 1 2 = none := by decide

theorem sliceFrom_one (hc : c.utf8Size = 1) (s : List Char) : sliceFrom (c :: s) 1 = some s := by
  have h := sliceFrom_offset (c :: s) 1
  rw [offset_cons, hc] at h
  exact h

/-! ### Characters found -/

theorem find_charIndicesFrom (p : Char → Bool) (i : Nat) (s : List Char) :
    ((charIndicesFrom i s).find? fun entry => p entry.2).map Prod.fst
      = (s.findIdx? p).map fun k => i + offset s k := by
  induction s generalizing i with
  | nil => rfl
  | cons c s ih =>
    rw [charIndicesFrom, List.find?_cons, List.findIdx?_cons]
    cases hc : p c with
    | true => rfl
    | false =>
      simp only [Bool.false_eq_true, if_false]
      rw [ih, Option.map_map]
      congr 1
      funext k
      show i + c.utf8Size + offset s k = i + offset (c :: s) (k + 1)
      rw [offset_cons, Nat.add_assoc]

theorem findChar_eq (p : Char → Bool) (s : List Char) : findChar p s = (s.findIdx? p).map (offset s) := by
  rw [findChar, charIndices, find_charIndicesFrom]
  congr 1
  funext k
  exact Nat.zero_add _

theorem findChar_getD (p : Char → Bool) (s : List Char) :
    (findChar p s).getD (byteLen s) = offset s (s.findIdx p) := by
  rw [findChar_eq]
  cases hfind : s.findIdx? p with
  | none =>
    rw [List.findIdx_eq_length_of_false (List.findIdx?_eq_none_iff.1 hfind), offset_length]
    rfl
  | some k =>
    rw [(List.findIdx?_eq_some_iff_findIdx_eq.1 hfind).2]
    rfl

theorem charIndicesFrom_append (i : Nat) (s t : List Char) :
    charIndicesFrom i (s ++ t) = charIndicesFrom i s ++ charIndicesFrom (i + byteLen s) t := by
  induction s generalizing i with
  | nil => rfl
  | cons c s ih =>
    rw [List.cons_append, charIndicesFrom, charIndicesFrom, ih, byteLen_cons, List.cons_append, Nat.add_assoc]

theorem find_reverse_charIndices (p : Char → Bool) (s : List Char) :
    ((charIndices s).reverse.find? fun entry => p entry.2).map (fun entry => entry.1 + entry.2.utf8Size)
      = (s.reverse.findIdx? p).map fun k => offset s (s.length - k) := by
  induction s using List.reverseRecOn with
  | nil => rfl
  | append_singleton s c ih =>
    have hend : charIndices (s ++ [c]) = charIndices s ++ [(byteLen s, c)] := by
      rw [charIndices, charIndicesFrom_append, Nat.zero_add]
      rfl
    rw [hend, List.reverse_append, List.reverse_append, List.reverse_singleton, List.reverse_singleton,
      List.singleton_append, List.singleton_append, List.find?_cons, List.findIdx?_cons]
    cases hc : p c with
    | true =>
      show some (byteLen s + c.utf8Size) = some (offset (s ++ [c]) (s ++ [c]).length)
      rw [offset_length, byteLen_append, byteLen_cons]
      rfl
    | false =>
      simp only [Bool.false_eq_true, if_false]
      rw [ih, Option.map_map]
      congr 1
      funext k
      show offset s (s.length - k) = offset (s ++ [c]) ((s ++ [c]).length - (k + 1))
      have hindex : (s ++ [c]).length - (k + 1) = s.length - k := by
        rw [List.length_append, List.length_singleton]
        omega
      rw [hindex, offset, offset, List.take_append_of_le_length (Nat.sub_le _ _)]

/-! ### Bytes found -/

theorem encode_cons (c : Char) (s : List Char) : encode (c :: s) = String.utf8EncodeChar c ++ encode s := by
  rw [encode, List.flatMap_cons, encode]

theorem exists_cons_encodeChar (c : Char) : ∃ b bytes, String.utf8EncodeChar c = b :: bytes := by
  apply List.exists_cons_of_ne_nil
  apply List.ne_nil_of_length_pos
  rw [String.length_utf8EncodeChar]
  exact c.utf8Size_pos

theorem toNat_asciiByte (hc : c.utf8Size = 1) : c.val.toUInt8.toNat = c.toNat ∧ c.toNat < 128 := by
  have hle : c.toNat ≤ 127 := Char.utf8Size_eq_one_iff.1 hc
  refine ⟨?_, by omega⟩
  show c.toNat % 256 = c.toNat
  omega

theorem le_toNat_of_mem_encodeChar (hc : c.utf8Size ≠ 1) {b : UInt8} (hb : b ∈ String.utf8EncodeChar c) :
    128 ≤ b.toNat := by
  have hlow : ¬ c.val.toNat ≤ 127 := fun hle => hc (Char.utf8Size_eq_one_iff.2 hle)
  have hbyte : ∀ n, 128 ≤ n → n < 256 → 128 ≤ (UInt8.ofNat n).toNat := by
    intro n hn hlt
    rwa [UInt8.toNat_ofNat_of_lt' hlt]
  unfold String.utf8EncodeChar at hb
  simp only [if_neg hlow] at hb
  split at hb
  · simp only [List.mem_cons, List.not_mem_nil, or_false] at hb
    rcases hb with rfl | rfl <;> exact hbyte _ (by omega) (by omega)
  · split at hb
    · simp only [List.mem_cons, List.not_mem_nil, or_false] at hb
      rcases hb with rfl | rfl | rfl <;> exact hbyte _ (by omega) (by omega)
    · simp only [List.mem_cons, List.not_mem_nil, or_false] at hb
      rcases hb with rfl | rfl | rfl | rfl <;> exact hbyte _ (by omega) (by omega)

theorem asciiByte_inj {d : Char} (hc : c.utf8Size = 1) (hd : d.utf8Size = 1)
    (h : c.val.toUInt8 = d.val.toUInt8) : c = d := by
  have heq := congrArg UInt8.toNat h
  rw [(toNat_asciiByte hc).1, (toNat_asciiByte hd).1] at heq
  exact Char.toNat_inj.1 heq

/-- The byte of an ASCII character is in no longer encoding. -/
theorem asciiByte_not_mem {d : Char} (hc : c.utf8Size = 1) (hd : d.utf8Size ≠ 1) :
    c.val.toUInt8 ∉ String.utf8EncodeChar d := by
  intro hmem
  have hlow := toNat_asciiByte hc
  have hhigh := le_toNat_of_mem_encodeChar hd hmem
  omega

variable {pat : List Char}

theorem encode_isPrefix_iff (hascii : ∀ c ∈ pat, c.utf8Size = 1) : encode pat <+: encode s ↔ pat <+: s := by
  induction pat generalizing s with
  | nil => exact iff_of_true List.nil_prefix List.nil_prefix
  | cons a pat ih =>
    have ha := hascii a List.mem_cons_self
    rw [encode_cons, String.utf8EncodeChar_eq_singleton ha, List.singleton_append]
    cases s with
    | nil => simp only [encode, List.flatMap_nil, List.prefix_nil, List.cons_ne_nil]
    | cons c s =>
      rw [List.cons_prefix_cons, ← ih fun d hd => hascii d (List.mem_cons_of_mem _ hd), encode_cons]
      by_cases hc : c.utf8Size = 1
      · rw [String.utf8EncodeChar_eq_singleton hc, List.singleton_append, List.cons_prefix_cons]
        constructor
        · exact fun h => ⟨asciiByte_inj ha hc h.1, h.2⟩
        · exact fun h => ⟨h.1 ▸ rfl, h.2⟩
      · constructor
        · intro h
          exfalso
          obtain ⟨b, bytes, hbytes⟩ := exists_cons_encodeChar c
          rw [hbytes, List.cons_append, List.cons_prefix_cons] at h
          apply asciiByte_not_mem ha hc
          rw [hbytes, h.1]
          exact List.mem_cons_self
        · intro h
          exact absurd (h.1 ▸ ha) hc

/-- **Where an ASCII pattern is found** in the bytes is where it is among the characters. -/
theorem find_encode (hne : pat ≠ []) (hascii : ∀ c ∈ pat, c.utf8Size = 1) (s : List Char) :
    find (encode pat) (encode s) = findStr pat s := by
  cases pat with
  | nil => exact absurd rfl hne
  | cons a pat =>
    have ha := hascii a List.mem_cons_self
    have hencode : encode (a :: pat) = a.val.toUInt8 :: encode pat := by
      rw [encode_cons, String.utf8EncodeChar_eq_singleton ha, List.singleton_append]
    unfold findStr
    induction s with
    | nil =>
      rw [hencode]
      rfl
    | cons c s ih =>
      have hshift : ∀ o : Option Nat, (o.map (offset s)).map (· + c.utf8Size)
          = (o.map (· + 1)).map (offset (c :: s)) := by
        intro o
        rw [Option.map_map, Option.map_map]
        congr 1
        funext k
        show offset s k + c.utf8Size = offset (c :: s) (k + 1)
        rw [offset_cons, Nat.add_comm]
      have hiff := encode_isPrefix_iff (s := c :: s) hascii
      by_cases hc : c.utf8Size = 1
      · rw [encode_cons c, String.utf8EncodeChar_eq_singleton hc, List.singleton_append] at hiff ⊢
        by_cases hstarts : (a :: pat) <+: c :: s
        · rw [find_cons_of_isPrefix hstarts, find_cons_of_isPrefix (hiff.2 hstarts)]
          rfl
        · rw [find_cons_of_not_isPrefix hstarts, find_cons_of_not_isPrefix (hstarts ∘ hiff.1), ih, ← hshift, hc]
      · have hstarts : ¬(a :: pat) <+: c :: s := fun h => hc ((List.cons_prefix_cons.1 h).1 ▸ ha)
        rw [find_cons_of_not_isPrefix hstarts, ← hshift, ← ih, encode_cons c, hencode,
          find_append (asciiByte_not_mem ha hc), String.length_utf8EncodeChar]

theorem exists_firstByte (c : Char) (s : List Char) : ∃ b, (encode (c :: s))[0]? = some b ∧
    ∀ q : Char, q.utf8Size = 1 → (Char.ofNat b.toNat = q ↔ c = q) := by
  by_cases hc : c.utf8Size = 1
  · refine ⟨c.val.toUInt8, ?_, ?_⟩
    · rw [encode_cons, String.utf8EncodeChar_eq_singleton hc]
      rfl
    · intro q _
      rw [(toNat_asciiByte hc).1, Char.ofNat_toNat]
  · obtain ⟨b, bytes, hbytes⟩ := exists_cons_encodeChar c
    refine ⟨b, ?_, ?_⟩
    · rw [encode_cons, hbytes]
      rfl
    · intro q hq
      apply iff_of_false
      · intro heq
        have hhigh := le_toNat_of_mem_encodeChar hc (hbytes ▸ List.mem_cons_self)
        have hlow := (toNat_asciiByte hq).2
        have hlt := b.toNat_lt
        have hvalid : b.toNat.isValidChar := Or.inl (by omega)
        have hchar : (Char.ofNat b.toNat).toNat = b.toNat := by
          rw [Char.ofNat, dif_pos hvalid]
          rfl
        rw [← heq, hchar] at hlow
        omega
      · rintro rfl
        exact hc hq

theorem windows_of_length_lt {α : Type} {n : Nat} {l : List α} (h : l.length < n) : windows n l = [] := by
  cases l with
  | nil => rfl
  | cons a l => rw [windows, if_neg (by omega)]

/-- The first window that agrees with a pattern up to a function. -/
theorem findIdx_windows {α β : Type} [DecidableEq β] (f : α → β) {pat : List α} (hne : pat ≠ []) (l : List α) :
    ((windows pat.length l).findIdx? fun window => decide (window.map f = pat.map f))
      = find (pat.map f) (l.map f) := by
  induction l with
  | nil =>
    rw [windows, List.map_nil, find, if_neg]
    · rfl
    · exact fun hnil => hne (List.map_eq_nil_iff.1 hnil)
  | cons a l ih =>
    rw [windows]
    have hstarts : pat.length ≤ (a :: l).length →
        (((a :: l).take pat.length).map f = pat.map f ↔ pat.map f <+: (a :: l).map f) := by
      intro hle
      rw [List.map_take, eq_comm, List.prefix_iff_eq_take, List.length_map]
    by_cases hle : pat.length ≤ (a :: l).length
    · rw [if_pos hle, List.findIdx?_cons]
      by_cases heq : ((a :: l).take pat.length).map f = pat.map f
      · rw [decide_eq_true heq, List.map_cons, find_cons_of_isPrefix ((hstarts hle).1 heq)]
        rfl
      · rw [decide_eq_false heq, List.map_cons, find_cons_of_not_isPrefix (heq ∘ (hstarts hle).2), ← ih]
        rfl
    · rw [if_neg hle, List.map_cons, eq_comm, List.findIdx?_nil, find_eq_none]
      intro hin
      have hlength := hin.length_le
      rw [List.length_map, List.length_cons, List.length_map] at hlength
      exact hle hlength

/-! ### Lower case -/

theorem toLower_ascii : ∀ n : Fin 128, (Char.ofNat n).toLower.utf8Size = 1 ∧
    lowerByte (Char.ofNat n).val.toUInt8 = (Char.ofNat n).toLower.val.toUInt8 := by
  decide

theorem toLower_of_ascii (hc : c.utf8Size = 1) :
    c.toLower.utf8Size = 1 ∧ lowerByte c.val.toUInt8 = c.toLower.val.toUInt8 := by
  have h := toLower_ascii ⟨c.toNat, (toNat_asciiByte hc).2⟩
  rwa [Char.ofNat_toNat] at h

theorem toLower_of_not_ascii (hc : c.utf8Size ≠ 1) : c.toLower = c := by
  unfold Char.toLower
  split
  · rename_i hupper
    have hle : c.val ≤ 127 := UInt32.le_trans hupper.2 (by decide)
    exact absurd (Char.utf8Size_eq_one_iff.2 hle) hc
  · rfl

theorem utf8Size_toLower (c : Char) : c.toLower.utf8Size = c.utf8Size := by
  by_cases hc : c.utf8Size = 1
  · rw [hc, (toLower_of_ascii hc).1]
  · rw [toLower_of_not_ascii hc]

theorem encodeChar_toLower (c : Char) :
    (String.utf8EncodeChar c).map lowerByte = String.utf8EncodeChar c.toLower := by
  by_cases hc : c.utf8Size = 1
  · rw [String.utf8EncodeChar_eq_singleton hc, String.utf8EncodeChar_eq_singleton (toLower_of_ascii hc).1,
      List.map_singleton, (toLower_of_ascii hc).2]
  · have hbytes : ∀ b ∈ String.utf8EncodeChar c, lowerByte b = id b := by
      intro b hb
      have hhigh := le_toNat_of_mem_encodeChar hc hb
      unfold lowerByte
      rw [if_neg]
      · rfl
      · rintro ⟨_, hle⟩
        have hle' : b.toNat ≤ 90 := hle
        omega
    rw [toLower_of_not_ascii hc, List.map_congr_left hbytes, List.map_id]

theorem encode_toLower (s : List Char) : (encode s).map lowerByte = encode (s.map Char.toLower) := by
  induction s with
  | nil => rfl
  | cons c s ih => rw [encode_cons, List.map_append, encodeChar_toLower, ih, List.map_cons, encode_cons]

theorem byteLen_toLower (s : List Char) : byteLen (s.map Char.toLower) = byteLen s := by
  unfold byteLen
  rw [List.map_map]
  congr 1
  exact List.map_congr_left fun c _ => utf8Size_toLower c

theorem offset_toLower (s : List Char) (k : Nat) : offset (s.map Char.toLower) k = offset s k := by
  rw [offset, ← List.map_take, byteLen_toLower, offset]

theorem offset_add_of_isPrefix (h : pat <+: (s.map Char.toLower).drop k) :
    offset s (k + pat.length) = offset s k + byteLen pat := by
  have hpat : offset ((s.map Char.toLower).drop k) pat.length = byteLen pat := by
    rw [offset, ← List.prefix_iff_eq_take.1 h]
  rw [← offset_toLower, offset_add, offset_toLower, hpat]

end Utf8
