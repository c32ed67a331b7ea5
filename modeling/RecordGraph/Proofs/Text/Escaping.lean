import Mathlib
import RecordGraph.Text.Percent

/-!
# Escaping texts

A text is escaped by writing the bytes of each character that is no ASCII letter or digit as escapes. Decoding an
escaped text gives the text back, whatever characters it has.
-/

namespace RecordGraph

/-! ## Bytes of characters -/

/-- The bytes that spell a character in UTF-8. -/
def bytesOf (ch : Char) : List Nat := (String.utf8EncodeChar ch).map UInt8.toNat

section Bytes

variable {ch : Char} {n b pending bits low high : Nat} {bytes : List Nat}

theorem bytesOf_lt (h : b ∈ bytesOf ch) : b < 256 := by
  obtain ⟨byte, _, rfl⟩ := List.mem_map.mp h
  exact byte.toNat_lt

theorem bytesOf_one (h : ch.toNat < 0x80) : bytesOf ch = [ch.toNat] := by
  have hval : ch.val.toNat ≤ 127 := Nat.le_of_lt_succ h
  simp only [bytesOf, String.utf8EncodeChar, if_pos hval, List.map_cons, List.map_nil, UInt8.toNat_ofNat']
  exact congrArg ([·]) (Nat.mod_eq_of_lt (by omega))

theorem codePoint_lt : ch.toNat < 0x110000 := by
  rcases ch.valid with hlow | ⟨_, hhigh⟩
  · exact Nat.lt_trans hlow (by decide)
  · exact hhigh

/-- The bytes of a character have its bits, six in each but the first. -/
theorem bytesOf_two (hlow : 0x80 ≤ ch.toNat) (hhigh : ch.toNat < 0x800) :
    bytesOf ch = [ch.toNat / 64 + 192, ch.toNat % 64 + 128] := by
  have hval : ch.val.toNat = ch.toNat := rfl
  simp only [bytesOf, String.utf8EncodeChar, hval, if_neg (show ¬ ch.toNat ≤ 127 by omega),
    if_pos (show ch.toNat ≤ 2047 by omega), List.map_cons, List.map_nil, UInt8.toNat_ofNat', List.cons.injEq, and_true]
  omega

theorem bytesOf_three (hlow : 0x800 ≤ ch.toNat) (hhigh : ch.toNat < 0x10000) :
    bytesOf ch = [ch.toNat / 4096 + 224, ch.toNat / 64 % 64 + 128, ch.toNat % 64 + 128] := by
  have hval : ch.val.toNat = ch.toNat := rfl
  simp only [bytesOf, String.utf8EncodeChar, hval, if_neg (show ¬ ch.toNat ≤ 127 by omega),
    if_neg (show ¬ ch.toNat ≤ 2047 by omega), if_pos (show ch.toNat ≤ 65535 by omega), List.map_cons, List.map_nil,
    UInt8.toNat_ofNat', List.cons.injEq, and_true]
  omega

theorem bytesOf_four (hlow : 0x10000 ≤ ch.toNat) : bytesOf ch =
    [ch.toNat / 262144 + 240, ch.toNat / 4096 % 64 + 128, ch.toNat / 64 % 64 + 128, ch.toNat % 64 + 128] := by
  have hval : ch.val.toNat = ch.toNat := rfl
  have hmax : ch.toNat < 0x110000 := codePoint_lt
  simp only [bytesOf, String.utf8EncodeChar, hval, if_neg (show ¬ ch.toNat ≤ 127 by omega),
    if_neg (show ¬ ch.toNat ≤ 2047 by omega), if_neg (show ¬ ch.toNat ≤ 65535 by omega), List.map_cons, List.map_nil,
    UInt8.toNat_ofNat', List.cons.injEq, and_true]
  omega

/-- A byte in its range adds six bits to the current character, or completes it. -/
theorem decodeFrom_cons (hpending : pending ≠ 0) (hlow : low ≤ b) (hhigh : b ≤ high) :
    decodeFrom pending bits low high (b :: bytes) =
      if pending = 1 then Char.ofNat (bits * 64 + (b - 0x80)) :: decodeUtf8 bytes
      else decodeFrom (pending - 1) (bits * 64 + (b - 0x80)) 0x80 0xbf bytes := by
  rw [decodeFrom, if_pos ⟨hpending, hlow, hhigh⟩]
  rfl

theorem decodeUtf8_one (h : n < 0x80) : decodeUtf8 (n :: bytes) = Char.ofNat n :: decodeUtf8 bytes := by
  simp [decodeUtf8, decodeFrom, h]

theorem decodeUtf8_lead {first more : Nat} (hb : 0x80 ≤ b) (h : leadByte? b = some (more, first, low, high)) :
    decodeUtf8 (b :: bytes) = decodeFrom more first low high bytes := by
  simp [decodeUtf8, decodeFrom, Nat.not_lt.mpr hb, h]

/-- The first byte of a character tells how many follow, and in which range the second lies. -/
theorem leadByte?_two (hlow : 0x80 ≤ n) (hhigh : n < 0x800) :
    leadByte? (n / 64 + 192) = some (1, n / 64, 0x80, 0xbf) := by
  unfold leadByte?
  rw [if_pos (by omega), Nat.add_sub_cancel]

theorem leadByte?_three (hlow : 0x800 ≤ n) (hhigh : n < 0x10000) (hvalid : n < 0xd800 ∨ 0xdfff < n) :
    ∃ low high, leadByte? (n / 4096 + 224) = some (2, n / 4096, low, high) ∧
      low ≤ n / 64 % 64 + 128 ∧ n / 64 % 64 + 128 ≤ high := by
  unfold leadByte?
  rw [if_neg (by omega)]
  by_cases hfirst : n / 4096 = 0
  · exact ⟨0xa0, 0xbf, by rw [hfirst]; rfl, by omega, by omega⟩
  · rw [if_neg (by omega)]
    by_cases hsurrogate : n / 4096 = 13
    · exact ⟨0x80, 0x9f, by rw [hsurrogate]; rfl, by omega, by omega⟩
    · rw [if_neg (by omega), if_pos (by omega), Nat.add_sub_cancel]
      exact ⟨0x80, 0xbf, rfl, by omega, by omega⟩

theorem leadByte?_four (hlow : 0x10000 ≤ n) (hhigh : n < 0x110000) :
    ∃ low high, leadByte? (n / 262144 + 240) = some (3, n / 262144, low, high) ∧
      low ≤ n / 4096 % 64 + 128 ∧ n / 4096 % 64 + 128 ≤ high := by
  unfold leadByte?
  rw [if_neg (by omega), if_neg (by omega), if_neg (by omega), if_neg (by omega)]
  by_cases hfirst : n / 262144 = 0
  · exact ⟨0x90, 0xbf, by rw [hfirst]; rfl, by omega, by omega⟩
  · rw [if_neg (by omega)]
    by_cases hlast : n / 262144 = 4
    · exact ⟨0x80, 0x8f, by rw [hlast]; rfl, by omega, by omega⟩
    · rw [if_pos (by omega), Nat.add_sub_cancel]
      exact ⟨0x80, 0xbf, rfl, by omega, by omega⟩

/-- The bytes of a character are read as the character. -/
theorem decodeUtf8_bytesOf : decodeUtf8 (bytesOf ch ++ bytes) = ch :: decodeUtf8 bytes := by
  have hvalid : ch.toNat < 0xd800 ∨ 0xdfff < ch.toNat ∧ ch.toNat < 0x110000 := ch.valid
  have hback {k : Nat} (hk : k = ch.toNat) : Char.ofNat k = ch := by
    rw [hk, Char.ofNat_toNat]
  rcases Nat.lt_or_ge ch.toNat 0x80 with hone | hmore
  · rw [bytesOf_one hone, List.singleton_append, decodeUtf8_one hone, Char.ofNat_toNat]
  rcases Nat.lt_or_ge ch.toNat 0x800 with htwo | hmore
  · rw [bytesOf_two hmore htwo, List.cons_append, decodeUtf8_lead (by omega) (leadByte?_two hmore htwo),
      List.singleton_append, decodeFrom_cons (by omega) (by omega) (by omega), if_pos rfl, hback (by omega)]
  rcases Nat.lt_or_ge ch.toNat 0x10000 with hthree | hmore
  · obtain ⟨low, high, hlead, hlow, hhigh⟩ := leadByte?_three hmore hthree (by omega)
    rw [bytesOf_three hmore hthree, List.cons_append, decodeUtf8_lead (by omega) hlead, List.cons_append,
      decodeFrom_cons (by omega) hlow hhigh, if_neg (by omega), List.singleton_append,
      decodeFrom_cons (by omega) (by omega) (by omega), if_pos (by omega), hback (by omega)]
  · obtain ⟨low, high, hlead, hlow, hhigh⟩ := leadByte?_four hmore codePoint_lt
    rw [bytesOf_four hmore, List.cons_append, decodeUtf8_lead (by omega) hlead, List.cons_append,
      decodeFrom_cons (by omega) hlow hhigh, if_neg (by omega), List.cons_append,
      decodeFrom_cons (by omega) (by omega) (by omega), if_neg (by omega), List.singleton_append,
      decodeFrom_cons (by omega) (by omega) (by omega), if_pos (by omega), hback (by omega)]

theorem decodeUtf8_flatMap (cs : List Char) : decodeUtf8 (cs.flatMap bytesOf) = cs := by
  induction cs with
  | nil => rfl
  | cons ch cs ih => rw [List.flatMap_cons, decodeUtf8_bytesOf, ih]

end Bytes

/-! ## Escapes -/

def escapeDigit (n : Nat) : Char := Char.ofNat (if n < 10 then 48 + n else 55 + n)

/-- The escape of a byte. -/
def escapeByte (b : Nat) : List Char := ['%', escapeDigit (b / 16), escapeDigit (b % 16)]

def escapeChar (ch : Char) : List Char := if ch.isAlphanum then [ch] else (bytesOf ch).flatMap escapeByte

/-- The text in ASCII letters, digits and escapes. -/
def escape (cs : List Char) : List Char := cs.flatMap escapeChar

variable {ch : Char} {b n : Nat} {cs rest run : List Char} {bytes : List Nat}

theorem hexValue?_escapeDigit (h : n < 16) : hexValue? (escapeDigit n) = some n := by
  have hall : ∀ n < 16, hexValue? (escapeDigit n) = some n := by decide
  exact hall n h

theorem isAlphanum_escapeDigit (h : n < 16) : (escapeDigit n).isAlphanum = true := by
  have hall : ∀ n < 16, (escapeDigit n).isAlphanum = true := by decide
  exact hall n h

/-- A character as a letter or digit of ASCII. -/
theorem isAlphanum_iff : ch.isAlphanum = true ↔
    48 ≤ ch.toNat ∧ ch.toNat ≤ 57 ∨ 65 ≤ ch.toNat ∧ ch.toNat ≤ 90 ∨ 97 ≤ ch.toNat ∧ ch.toNat ≤ 122 := by
  simp only [Char.isAlphanum, Char.isAlpha, Char.isUpper, Char.isLower, Char.isDigit, Bool.or_eq_true,
    Bool.and_eq_true, decide_eq_true_eq, ge_iff_le, UInt32.le_iff_toNat_le]
  show (65 ≤ ch.toNat ∧ ch.toNat ≤ 90 ∨ 97 ≤ ch.toNat ∧ ch.toNat ≤ 122) ∨ 48 ≤ ch.toNat ∧ ch.toNat ≤ 57 ↔ _
  omega

theorem unescape_cons (h : ch ≠ '%') : unescape (ch :: cs) = ch.toNat :: unescape cs := by
  rw [unescape]
  rintro _ _ _ rfl
  exact absurd rfl h

theorem unescape_escapeByte (h : b < 256) : unescape (escapeByte b ++ cs) = b :: unescape cs := by
  have hparts : 16 * (b / 16) + b % 16 = b := by omega
  simp only [escapeByte, List.cons_append, List.nil_append, unescape, hexValue?_escapeDigit (show b / 16 < 16 by omega),
    hexValue?_escapeDigit (show b % 16 < 16 by omega), hparts]

theorem unescape_escapeBytes (h : ∀ b ∈ bytes, b < 256) :
    unescape (bytes.flatMap escapeByte ++ cs) = bytes ++ unescape cs := by
  induction bytes with
  | nil => rfl
  | cons b bytes ih =>
      rw [List.flatMap_cons, List.append_assoc, unescape_escapeByte (h b List.mem_cons_self),
        ih fun b hb => h b (List.mem_cons_of_mem _ hb), List.cons_append]

theorem unescape_escapeChar : unescape (escapeChar ch ++ cs) = bytesOf ch ++ unescape cs := by
  unfold escapeChar
  split
  · rename_i halphanum
    have hrange := isAlphanum_iff.mp halphanum
    have hplain : ch ≠ '%' := by
      rintro rfl
      cases halphanum
    rw [List.singleton_append, unescape_cons hplain, bytesOf_one (by omega), List.singleton_append]
  · exact unescape_escapeBytes fun b => bytesOf_lt

theorem unescape_escape : unescape (escape cs) = cs.flatMap bytesOf := by
  induction cs with
  | nil => rfl
  | cons ch cs ih => rw [escape, List.flatMap_cons, unescape_escapeChar, ← escape, ih, List.flatMap_cons]

/-- An escaped text has no other characters than letters, digits and per cent signs. -/
theorem mem_escape (h : ch ∈ escape cs) : ch = '%' ∨ ch.isAlphanum = true := by
  obtain ⟨own, _, hin⟩ := List.mem_flatMap.mp h
  unfold escapeChar at hin
  split at hin
  · obtain rfl := List.mem_singleton.mp hin
    exact .inr ‹_›
  · obtain ⟨b, hb, hin⟩ := List.mem_flatMap.mp hin
    have hlt := bytesOf_lt hb
    simp only [escapeByte, List.mem_cons, List.not_mem_nil, or_false] at hin
    rcases hin with rfl | rfl | rfl
    · exact .inl rfl
    · exact .inr (isAlphanum_escapeDigit (by omega))
    · exact .inr (isAlphanum_escapeDigit (by omega))

theorem decodeRuns_ascii (h : ∀ ch ∈ cs, ch.toNat < 128) :
    decodeRuns run cs = decodeUtf8 (unescape (run.reverse ++ cs)) := by
  induction cs generalizing run with
  | nil => rw [decodeRuns, List.append_nil]
  | cons ch cs ih =>
      rw [decodeRuns, if_pos (h ch List.mem_cons_self), ih fun ch hch => h ch (List.mem_cons_of_mem _ hch),
        List.reverse_cons, List.append_assoc, List.singleton_append]

/-- Decoding an escaped text gives the text back. -/
theorem percentDecode_escape (cs : List Char) : percentDecode (escape cs) = cs := by
  have hascii : ∀ ch ∈ escape cs, ch.toNat < 128 := by
    intro ch hin
    rcases mem_escape hin with rfl | halphanum
    · decide
    · have hrange := isAlphanum_iff.mp halphanum
      omega
  rw [percentDecode, decodeRuns_ascii hascii, List.reverse_nil, List.nil_append, unescape_escape, decodeUtf8_flatMap]

theorem escape_inj {text : List Char} (h : escape cs = escape text) : cs = text := by
  rw [← percentDecode_escape cs, h, percentDecode_escape]

/-- Letters and digits stay as they are. -/
theorem escape_alphanum (h : ∀ ch ∈ cs, ch.isAlphanum = true) : escape cs = cs := by
  induction cs with
  | nil => rfl
  | cons ch cs ih =>
      rw [escape, List.flatMap_cons, escapeChar, if_pos (h ch List.mem_cons_self), ← escape,
        ih fun ch hch => h ch (List.mem_cons_of_mem _ hch), List.singleton_append]

/-- What ends an escaped text is no per cent sign. -/
theorem escape_last (hne : cs ≠ []) : ∃ front last, escape cs = front ++ [last] ∧ last.isAlphanum = true := by
  obtain ⟨front, own, rfl⟩ := cs.eq_nil_or_concat.resolve_left hne
  suffices h : ∃ head last, escapeChar own = head ++ [last] ∧ last.isAlphanum = true by
    obtain ⟨head, last, hown, hlast⟩ := h
    refine ⟨escape front ++ head, last, ?_, hlast⟩
    simp [escape, hown]
  unfold escapeChar
  split
  · exact ⟨[], own, rfl, ‹_›⟩
  · have hbytes : bytesOf own ≠ [] := by
      simp [bytesOf, String.utf8EncodeChar_ne_nil]
    obtain ⟨bytes, b, hb⟩ := (bytesOf own).eq_nil_or_concat.resolve_left hbytes
    have hin : b ∈ bytesOf own := by simp [hb]
    have hlt : b < 256 := bytesOf_lt hin
    refine ⟨bytes.flatMap escapeByte ++ ['%', escapeDigit (b / 16)], escapeDigit (b % 16), ?_,
      isAlphanum_escapeDigit (by omega)⟩
    simp [hb, escapeByte]

end RecordGraph
