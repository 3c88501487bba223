import Mathlib.Data.List.DropRight

/-!
# Text

Bytes as pairs of lower-case hexadecimal digits, their decoder, which also
takes upper case, and the trimming of whitespace and prefixes off a text.
-/

namespace Kmwarp.Foundation

/-- The digit of a number below 16. -/
def hexDigit (value : Nat) : Char :=
  if value < 10 then Char.ofNat (48 + value) else Char.ofNat (87 + value)

def hexValue (c : Char) : Option Nat :=
  if 48 ≤ c.toNat ∧ c.toNat ≤ 57 then some (c.toNat - 48)
  else if 97 ≤ c.toNat ∧ c.toNat ≤ 102 then some (c.toNat - 87)
  else if 65 ≤ c.toNat ∧ c.toNat ≤ 70 then some (c.toNat - 55)
  else none

def hexEncode (bytes : List UInt8) : List Char :=
  bytes.flatMap fun byte => [hexDigit (byte.toNat / 16), hexDigit (byte.toNat % 16)]

/-- Decode pairs of digits.  An odd length or another character fails. -/
def hexDecode : List Char → Option (List UInt8)
  | [] => some []
  | [_] => none
  | high :: low :: rest => do
      let high ← hexValue high
      let low ← hexValue low
      let bytes ← hexDecode rest
      return UInt8.ofNat (16 * high + low) :: bytes

/-- The Unicode `White_Space` property. -/
def isWhitespace (c : Char) : Bool :=
  (9 ≤ c.toNat && c.toNat ≤ 13) || c.toNat == 0x20 || c.toNat == 0x85 ||
    c.toNat == 0xA0 || c.toNat == 0x1680 || (0x2000 ≤ c.toNat && c.toNat ≤ 0x200A) ||
    c.toNat == 0x2028 || c.toNat == 0x2029 || c.toNat == 0x202F || c.toNat == 0x205F ||
    c.toNat == 0x3000

def trim (text : List Char) : List Char :=
  (text.dropWhile isWhitespace).rdropWhile isWhitespace

theorem hexValue_hexDigit {value : Nat} (bound : value < 16) :
    hexValue (hexDigit value) = some value := by
  revert value
  decide

theorem not_isWhitespace_hexDigit {value : Nat} (bound : value < 16) :
    isWhitespace (hexDigit value) = false := by
  revert value
  decide

@[simp] theorem hexDecode_hexEncode (bytes : List UInt8) :
    hexDecode (hexEncode bytes) = some bytes := by
  induction bytes with
  | nil => rfl
  | cons byte bytes ih =>
      have bound : byte.toNat < 256 := byte.toNat_lt
      have high : hexValue (hexDigit (byte.toNat / 16)) = some (byte.toNat / 16) :=
        hexValue_hexDigit (by omega)
      have low : hexValue (hexDigit (byte.toNat % 16)) = some (byte.toNat % 16) :=
        hexValue_hexDigit (by omega)
      rw [hexEncode] at ih ⊢
      have joined : UInt8.ofNat (16 * (byte.toNat / 16) + byte.toNat % 16) = byte := by
        rw [Nat.div_add_mod, UInt8.ofNat_toNat]
      simp only [List.flatMap_cons, List.cons_append, List.nil_append, hexDecode, high, low,
        ih, Option.bind_eq_bind, Option.bind_some, joined, Option.pure_def]

/-- Two digits for each byte decoded. -/
theorem digits_of_hexDecode {text : List Char} {bytes : List UInt8}
    (decoded : hexDecode text = some bytes) :
    text.length = 2 * bytes.length ∧ ∀ c ∈ text, (hexValue c).isSome := by
  induction text using hexDecode.induct generalizing bytes with
  | case1 =>
      cases decoded
      exact ⟨rfl, nofun⟩
  | case2 => cases decoded
  | case3 high low rest ih =>
      simp only [hexDecode, Option.bind_eq_bind, Option.bind_eq_some_iff,
        Option.pure_def, Option.some.injEq] at decoded
      obtain ⟨highValue, isHigh, lowValue, isLow, restBytes, restDecoded, rfl⟩ := decoded
      obtain ⟨length, digits⟩ := ih restDecoded
      refine ⟨by simp only [List.length_cons, length]; omega, ?_⟩
      simp only [List.forall_mem_cons, isHigh, isLow, Option.isSome_some, true_and]
      exact digits

/-- Lower-case digits are those that the bytes decoded are encoded with. -/
theorem hexEncode_of_hexDecode {text : List Char} {bytes : List UInt8}
    (lower : ∀ c ∈ text, ∃ value < 16, c = hexDigit value)
    (decoded : hexDecode text = some bytes) : hexEncode bytes = text := by
  induction text using hexDecode.induct generalizing bytes with
  | case1 =>
      cases decoded
      rfl
  | case2 => cases decoded
  | case3 high low rest ih =>
      obtain ⟨⟨highValue, highBound, rfl⟩, ⟨lowValue, lowBound, rfl⟩, restLower⟩ :
          (∃ value < 16, high = hexDigit value) ∧ (∃ value < 16, low = hexDigit value) ∧
            ∀ c ∈ rest, ∃ value < 16, c = hexDigit value := by
        simpa using lower
      simp only [hexDecode, hexValue_hexDigit highBound, hexValue_hexDigit lowBound,
        Option.bind_eq_bind, Option.bind_some, Option.bind_eq_some_iff, Option.pure_def,
        Option.some.injEq] at decoded
      obtain ⟨restBytes, restDecoded, rfl⟩ := decoded
      have same := ih restLower restDecoded
      have value : (UInt8.ofNat (16 * highValue + lowValue)).toNat =
          16 * highValue + lowValue :=
        UInt8.toNat_ofNat_of_lt' (by rw [UInt8.size]; omega)
      rw [hexEncode, List.flatMap_cons, value, ← hexEncode, same]
      have first : (16 * highValue + lowValue) / 16 = highValue := by omega
      have second : (16 * highValue + lowValue) % 16 = lowValue := by omega
      rw [first, second]
      rfl

theorem hexValue_of_isWhitespace {c : Char} (space : isWhitespace c = true) :
    hexValue c = none := by
  simp only [isWhitespace, Bool.or_eq_true, Bool.and_eq_true, decide_eq_true_eq,
    beq_iff_eq] at space
  rw [hexValue, if_neg (by omega), if_neg (by omega), if_neg (by omega)]

theorem not_isWhitespace_hexEncode (bytes : List UInt8) :
    ∀ c ∈ hexEncode bytes, isWhitespace c = false := by
  intro c member
  obtain ⟨byte, _, isDigit⟩ := List.mem_flatMap.mp member
  have bound : byte.toNat < 256 := byte.toNat_lt
  rcases List.mem_cons.mp isDigit with rfl | isDigit
  · exact not_isWhitespace_hexDigit (by omega)
  · rw [List.mem_singleton.mp isDigit]
    exact not_isWhitespace_hexDigit (by omega)

/-! ## Visible characters -/

/-- The characters that are not whitespace. -/
def visible (text : List Char) : List Char :=
  text.filter (!isWhitespace ·)

theorem mem_visible {text : List Char} {c : Char} (member : c ∈ text)
    (isVisible : isWhitespace c = false) : c ∈ visible text := by
  rw [visible, List.mem_filter]
  exact ⟨member, by rw [isVisible]; rfl⟩

theorem visible_dropWhile (text : List Char) :
    visible (text.dropWhile isWhitespace) = visible text := by
  induction text with
  | nil => rfl
  | cons c text ih =>
      cases space : isWhitespace c with
      | true =>
          rw [List.dropWhile_cons_of_pos space, ih]
          simp [visible, space]
      | false => rw [List.dropWhile_cons_of_neg (by simp [space])]

theorem visible_rdropWhile (text : List Char) :
    visible (text.rdropWhile isWhitespace) = visible text := by
  have reversed := visible_dropWhile text.reverse
  simp only [visible, List.filter_reverse] at reversed ⊢
  rw [List.rdropWhile, List.filter_reverse, reversed, List.reverse_reverse]

/-- Trimming takes off whitespace only. -/
theorem visible_trim (text : List Char) : visible (trim text) = visible text := by
  rw [trim, visible_rdropWhile, visible_dropWhile]

/-- The text is the word with whitespace inserted anywhere. -/
inductive Spaced : List Char → List Char → Prop where
  | nil : Spaced [] []
  | space {word text : List Char} {c : Char} (isSpace : isWhitespace c = true)
      (later : Spaced word text) : Spaced word (c :: text)
  | next {word text : List Char} (c : Char) (later : Spaced word text) :
      Spaced (c :: word) (c :: text)

/-- What is visible of a spaced word is the word. -/
theorem visible_of_spaced {word text : List Char} (spaced : Spaced word text)
    (allVisible : ∀ c ∈ word, isWhitespace c = false) : visible text = word := by
  induction spaced with
  | nil => rfl
  | space isSpace later ih =>
      rw [← ih allVisible]
      simp [visible, isSpace]
  | next c later ih =>
      have isVisible := allVisible c List.mem_cons_self
      have inRest := ih fun other member => allVisible other (List.mem_cons_of_mem c member)
      rw [visible] at inRest ⊢
      rw [List.filter_cons_of_pos (by simp [isVisible]), inRest]

/-- Whitespace at the end is taken off what is behind a visible word. -/
theorem rdropWhile_append {word : List Char}
    (allVisible : ∀ c ∈ word, isWhitespace c = false) (text : List Char) :
    (word ++ text).rdropWhile isWhitespace = word ++ text.rdropWhile isWhitespace := by
  induction text using List.reverseRecOn with
  | nil =>
      rw [List.append_nil, List.rdropWhile_nil, List.append_nil, List.rdropWhile_eq_self_iff]
      intro there
      simp [allVisible _ (List.getLast_mem there)]
  | append_singleton text c ih =>
      rw [← List.append_assoc]
      cases space : isWhitespace c with
      | true =>
          rw [List.rdropWhile_concat_pos _ _ _ space, List.rdropWhile_concat_pos _ _ _ space, ih]
      | false =>
          have stays : ¬ isWhitespace c = true := by simp [space]
          rw [List.rdropWhile_concat_neg _ _ _ stays, List.rdropWhile_concat_neg _ _ _ stays,
            List.append_assoc]

/-- Whitespace in front is trimmed off, and at the end of what is behind a visible word. -/
theorem trim_append_append {lead word : List Char} (nonempty : word ≠ [])
    (spaces : ∀ c ∈ lead, isWhitespace c = true)
    (allVisible : ∀ c ∈ word, isWhitespace c = false) (text : List Char) :
    trim (lead ++ (word ++ text)) = word ++ text.rdropWhile isWhitespace := by
  have started : (word ++ text).dropWhile isWhitespace = word ++ text := by
    cases word with
    | nil => exact absurd rfl nonempty
    | cons c word =>
        rw [List.cons_append, List.dropWhile_cons_of_neg]
        simp [allVisible c List.mem_cons_self]
  rw [trim, List.dropWhile_append_of_pos spaces, started, rdropWhile_append allVisible]

/-- Trimming takes off a line end and nothing else of a visible text. -/
theorem trim_append_newline {text : List Char}
    (allVisible : ∀ c ∈ text, isWhitespace c = false) :
    trim (text ++ ['\n']) = text := by
  cases text with
  | nil => rfl
  | cons first rest =>
      have noLead : ∀ c ∈ ([] : List Char), isWhitespace c = true := List.forall_mem_nil _
      have trimmed := trim_append_append (List.cons_ne_nil first rest) noLead allVisible ['\n']
      have lineEnd : ['\n'].rdropWhile isWhitespace = [] := rfl
      rw [lineEnd, List.append_nil] at trimmed
      exact trimmed

/-! ## Prefixes -/

/-- A prefix is taken off as often as it stands in front. -/
def trimStartMatches (pattern text : List Char) : List Char :=
  if pattern ≠ [] ∧ pattern <+: text then
    trimStartMatches pattern (text.drop pattern.length)
  else text
termination_by text.length
decreasing_by
  rename_i found
  have shorter := List.length_pos_iff.mpr found.1
  have within := found.2.length_le
  rw [List.length_drop]
  omega

theorem trimStartMatches_of_not_prefix {pattern text : List Char}
    (absent : ¬ pattern <+: text) : trimStartMatches pattern text = text := by
  rw [trimStartMatches, if_neg fun found => absent found.2]

theorem trimStartMatches_append {pattern : List Char} (nonempty : pattern ≠ [])
    (text : List Char) :
    trimStartMatches pattern (pattern ++ text) = trimStartMatches pattern text := by
  rw [trimStartMatches, if_pos ⟨nonempty, List.prefix_append pattern text⟩, List.drop_left]

end Kmwarp.Foundation
