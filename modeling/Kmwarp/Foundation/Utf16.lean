import Mathlib.Data.List.Basic

/-!
# UTF-16

A character is one unit or a surrogate pair, and decoding replaces what is
neither.  No unit of a visible character is zero, so a terminated text ends at
its first NUL.
-/

namespace Kmwarp.Foundation

def encodeUtf16Char (c : Char) : List UInt16 :=
  if c.toNat < 0x10000 then [UInt16.ofNat c.toNat]
  else
    let offset := c.toNat - 0x10000
    [UInt16.ofNat (0xD800 + offset / 0x400), UInt16.ofNat (0xDC00 + offset % 0x400)]

def encodeUtf16 (text : List Char) : List UInt16 :=
  text.flatMap encodeUtf16Char

def isHighSurrogate (unit : UInt16) : Bool :=
  0xD800 ≤ unit.toNat && unit.toNat < 0xDC00

def isLowSurrogate (unit : UInt16) : Bool :=
  0xDC00 ≤ unit.toNat && unit.toNat < 0xE000

def replacementCharacter : Char := Char.ofNat 0xFFFD

def decodeUtf16Unit (unit : UInt16) : Char :=
  if isHighSurrogate unit || isLowSurrogate unit then replacementCharacter
  else Char.ofNat unit.toNat

/-- Decode, with the replacement character for every unpaired surrogate. -/
def decodeUtf16Lossy : List UInt16 → List Char
  | [] => []
  | [unit] => [decodeUtf16Unit unit]
  | unit :: next :: later =>
      if isHighSurrogate unit && isLowSurrogate next then
        Char.ofNat (0x10000 + (unit.toNat - 0xD800) * 0x400 + (next.toNat - 0xDC00)) ::
          decodeUtf16Lossy later
      else decodeUtf16Unit unit :: decodeUtf16Lossy (next :: later)

/-- A character is no surrogate, and at most 0x10FFFF. -/
theorem toNat_char_cases (c : Char) :
    c.toNat < 0xD800 ∨ 0xDFFF < c.toNat ∧ c.toNat < 0x110000 :=
  c.valid

theorem toNat_ofNat_of_char {c : Char} (short : c.toNat < 0x10000) :
    (UInt16.ofNat c.toNat).toNat = c.toNat :=
  UInt16.toNat_ofNat_of_lt' short

theorem not_surrogate_of_char {c : Char} (short : c.toNat < 0x10000) :
    isHighSurrogate (UInt16.ofNat c.toNat) = false ∧
      isLowSurrogate (UInt16.ofNat c.toNat) = false := by
  have valid := toNat_char_cases c
  simp only [isHighSurrogate, isLowSurrogate, toNat_ofNat_of_char short,
    Bool.and_eq_false_iff, decide_eq_false_iff_not]
  omega

theorem decodeUtf16Unit_of_char {c : Char} (short : c.toNat < 0x10000) :
    decodeUtf16Unit (UInt16.ofNat c.toNat) = c := by
  obtain ⟨notHigh, notLow⟩ := not_surrogate_of_char short
  rw [decodeUtf16Unit, notHigh, notLow, toNat_ofNat_of_char short]
  exact Char.ofNat_toNat c

/-- Decoding starts with the character that was encoded first. -/
theorem decodeUtf16Lossy_encodeUtf16Char (c : Char) (later : List UInt16) :
    decodeUtf16Lossy (encodeUtf16Char c ++ later) = c :: decodeUtf16Lossy later := by
  rw [encodeUtf16Char]
  split
  · rename_i short
    have decoded := decodeUtf16Unit_of_char short
    cases later with
    | nil => simp only [List.append_nil, decodeUtf16Lossy, decoded]
    | cons next later =>
        have notHigh := (not_surrogate_of_char short).1
        rw [List.singleton_append, decodeUtf16Lossy, notHigh, Bool.false_and, decoded]
        rfl
  · rename_i long
    have valid := toNat_char_cases c
    have highValue : (UInt16.ofNat (0xD800 + (c.toNat - 0x10000) / 0x400)).toNat =
        0xD800 + (c.toNat - 0x10000) / 0x400 :=
      UInt16.toNat_ofNat_of_lt' (by rw [UInt16.size]; omega)
    have lowValue : (UInt16.ofNat (0xDC00 + (c.toNat - 0x10000) % 0x400)).toNat =
        0xDC00 + (c.toNat - 0x10000) % 0x400 :=
      UInt16.toNat_ofNat_of_lt' (by rw [UInt16.size]; omega)
    have isPair : (isHighSurrogate (UInt16.ofNat (0xD800 + (c.toNat - 0x10000) / 0x400)) &&
        isLowSurrogate (UInt16.ofNat (0xDC00 + (c.toNat - 0x10000) % 0x400))) = true := by
      simp only [isHighSurrogate, isLowSurrogate, highValue, lowValue, Bool.and_eq_true,
        decide_eq_true_eq]
      omega
    have joined : 0x10000 + (0xD800 + (c.toNat - 0x10000) / 0x400 - 0xD800) * 0x400 +
        (0xDC00 + (c.toNat - 0x10000) % 0x400 - 0xDC00) = c.toNat := by
      omega
    simp only [List.cons_append, List.nil_append, decodeUtf16Lossy, isPair, if_true,
      highValue, lowValue, joined, Char.ofNat_toNat]

@[simp] theorem decodeUtf16Lossy_encodeUtf16 (text : List Char) :
    decodeUtf16Lossy (encodeUtf16 text) = text := by
  induction text with
  | nil => rfl
  | cons c text ih =>
      rw [encodeUtf16, List.flatMap_cons, decodeUtf16Lossy_encodeUtf16Char]
      exact congrArg (c :: ·) ih

/-- The units of a character contain a zero exactly if it is NUL. -/
theorem zero_mem_encodeUtf16Char (c : Char) :
    0 ∈ encodeUtf16Char c ↔ c = Char.ofNat 0 := by
  have isNul : c = Char.ofNat 0 ↔ c.toNat = 0 :=
    ⟨fun same => by rw [same]; rfl, fun zero => by rw [← Char.ofNat_toNat c, zero]⟩
  rw [isNul, encodeUtf16Char]
  split
  · rename_i short
    rw [List.mem_singleton, ← UInt16.toNat_inj, toNat_ofNat_of_char short, eq_comm]
    rfl
  · rename_i long
    have valid := toNat_char_cases c
    have highValue : (UInt16.ofNat (0xD800 + (c.toNat - 0x10000) / 0x400)).toNat ≠ 0 := by
      rw [UInt16.toNat_ofNat_of_lt' (by rw [UInt16.size]; omega)]
      omega
    have lowValue : (UInt16.ofNat (0xDC00 + (c.toNat - 0x10000) % 0x400)).toNat ≠ 0 := by
      rw [UInt16.toNat_ofNat_of_lt' (by rw [UInt16.size]; omega)]
      omega
    simp only [List.mem_cons, List.not_mem_nil, or_false]
    refine iff_of_false ?_ (by omega)
    rintro (zero | zero)
    · exact highValue (congrArg UInt16.toNat zero).symm
    · exact lowValue (congrArg UInt16.toNat zero).symm

/-- The units in front of the first zero are those of the text in front of the
first NUL. -/
theorem takeWhile_encodeUtf16 (text : List Char) (later : List UInt16) :
    (encodeUtf16 text ++ 0 :: later).takeWhile (· ≠ 0) =
      encodeUtf16 (text.takeWhile (· ≠ Char.ofNat 0)) := by
  induction text with
  | nil => rfl
  | cons c text ih =>
      by_cases nul : c = Char.ofNat 0
      · subst nul
        rfl
      · have visible : ∀ unit ∈ encodeUtf16Char c, decide (unit ≠ 0) = true := by
          intro unit member
          refine decide_eq_true fun zero => nul ?_
          exact (zero_mem_encodeUtf16Char c).mp (zero ▸ member)
        rw [List.takeWhile_cons_of_pos (by simp [nul])]
        simp only [encodeUtf16, List.flatMap_cons, List.append_assoc] at ih ⊢
        rw [List.takeWhile_append_of_pos visible, ih]

end Kmwarp.Foundation
