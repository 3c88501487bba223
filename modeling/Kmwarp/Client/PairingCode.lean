import Kmwarp.Core.Pairing

/-!
# Pairing codes

The operator types the code that the server shows into a dialog or on standard input.
Both hand on what `check_code` accepts.
-/

namespace Kmwarp.Client

open Foundation Wire Pairing

/-! ## The dialog -/

def expectedCodeLen : Nat := 6

def isAsciiDigit (byte : UInt8) : Bool :=
  0x30 ≤ byte && byte ≤ 0x39

/-- `str::trim` -/
def trimmed (text : String) : String :=
  String.ofList (trim text.toList)

def validateCode (text : String) : Except String String :=
  let code := trimmed text
  if code = "" then .error "pairing code is empty"
  else if (asBytes code).length ≠ expectedCodeLen then
    .error s!"pairing code must be exactly {expectedCodeLen} digits (got {code.length} characters)"
  else if !(asBytes code).all isAsciiDigit then
    .error "pairing code must be all ASCII digits"
  else .ok code

theorem isAsciiDigit_iff {byte : UInt8} :
    isAsciiDigit byte = true ↔ 0x30 ≤ byte.toNat ∧ byte.toNat ≤ 0x39 := by
  simp only [isAsciiDigit, Bool.and_eq_true, decide_eq_true_eq, UInt8.le_iff_toNat_le]
  rfl

theorem isDigit_iff {c : Char} : c.isDigit = true ↔ 0x30 ≤ c.toNat ∧ c.toNat ≤ 0x39 := by
  simp only [Char.isDigit, Bool.and_eq_true, decide_eq_true_eq]
  rfl

/-- The first byte of a longer encoding is no digit. -/
theorem not_isAsciiDigit_lead {high : Nat} (leads : 0xC0 ≤ high) (short : high < 0x100) :
    isAsciiDigit (UInt8.ofNat high) = false := by
  rw [← Bool.not_eq_true, isAsciiDigit_iff, UInt8.toNat_ofNat_of_lt' short]
  omega

/-- Of the bytes of a character only those of a digit are digits. -/
theorem all_utf8EncodeChar (c : Char) :
    (String.utf8EncodeChar c).all isAsciiDigit = c.isDigit := by
  rw [Bool.eq_iff_iff, isDigit_iff]
  have value : c.val.toNat = c.toNat := rfl
  simp only [String.utf8EncodeChar, value]
  by_cases ascii : c.toNat ≤ 0x7F
  · rw [if_pos ascii, List.all_cons, List.all_nil, Bool.and_true, isAsciiDigit_iff,
      UInt8.toNat_ofNat_of_lt' (by rw [UInt8.size]; omega)]
  · have noDigit : ¬ (0x30 ≤ c.toNat ∧ c.toNat ≤ 0x39) := by omega
    rw [if_neg ascii]
    refine iff_of_false ?_ noDigit
    split
    · rw [List.all_cons, not_isAsciiDigit_lead (by omega) (by omega)]
      exact Bool.false_ne_true
    · split
      · rw [List.all_cons, not_isAsciiDigit_lead (by omega) (by omega)]
        exact Bool.false_ne_true
      · rw [List.all_cons, not_isAsciiDigit_lead (by omega) (by omega)]
        exact Bool.false_ne_true

theorem all_asBytes (text : String) :
    (asBytes text).all isAsciiDigit = text.toList.all Char.isDigit := by
  have encoded := asBytes_ofList text.toList
  rw [String.ofList_toList] at encoded
  rw [encoded]
  induction text.toList with
  | nil => rfl
  | cons c later ih =>
      rw [List.flatMap_cons, List.all_append, List.all_cons, all_utf8EncodeChar, ih]

/-- The dialog accepts what the check accepts, with whitespace around it. -/
theorem validateCode_iff (text code : String) :
    validateCode text = .ok code ↔ code = trimmed text ∧ checkCode code = .ok () := by
  have expected : expectedCodeLen = pairingCodeDigits := rfl
  rw [validateCode, all_asBytes, expected]
  constructor
  · intro accepted
    by_cases empty : trimmed text = ""
    · rw [if_pos empty] at accepted
      cases accepted
    · rw [if_neg empty] at accepted
      by_cases length : (asBytes (trimmed text)).length = pairingCodeDigits
      · rw [if_neg (not_not_intro length)] at accepted
        cases digits : (trimmed text).toList.all Char.isDigit with
        | false =>
            rw [digits] at accepted
            cases accepted
        | true =>
            rw [digits] at accepted
            cases accepted
            exact ⟨rfl, checkCode_ok_iff.mpr ⟨length, digits⟩⟩
      · rw [if_pos length] at accepted
        cases accepted
  · intro both
    obtain ⟨rfl, checks⟩ := both
    obtain ⟨length, digits⟩ := checkCode_ok_iff.mp checks
    have nonempty : trimmed text ≠ "" := by
      intro empty
      rw [empty] at length
      cases length
    rw [if_neg nonempty, if_neg (not_not_intro length), digits]
    rfl

/-! ## Standard input -/

def codeLabel : List Char := "code:".toList

/-- What `read_code_from_stdin` makes of the line it has read. -/
def readCodeFromStdin (line : String) : String :=
  String.ofList (visible (trim (trimStartMatches codeLabel (trim line.toList))))

/-- The code is typed with whitespace anywhere, and with the prefix in front or not. -/
inductive Types (code : String) : String → Prop where
  | plain {text : List Char} (spaced : Spaced code.toList text) :
      Types code (String.ofList text)
  | prefixed {lead text : List Char} (spaces : ∀ c ∈ lead, isWhitespace c = true)
      (spaced : Spaced code.toList text) :
      Types code (String.ofList (lead ++ (codeLabel ++ text)))

theorem not_isWhitespace_of_isDigit {c : Char} (isDigit : c.isDigit) :
    isWhitespace c = false := by
  obtain ⟨value, digit, rfl⟩ := digitChar_of_isDigit isDigit
  revert value
  decide

/-- No prefix is in front of digits. -/
theorem trimStartMatches_of_digits {text : List Char}
    (digits : ∀ c ∈ visible text, c.isDigit) :
    trimStartMatches codeLabel text = text := by
  apply trimStartMatches_of_not_prefix
  intro found
  have member : 'c' ∈ text := found.subset (by decide)
  exact absurd (digits 'c' (mem_visible member rfl)) (by decide)

theorem readCodeFromStdin_of_types {code line : String} (checks : checkCode code = .ok ())
    (typed : Types code line) : readCodeFromStdin line = code := by
  have digits := (digits_of_checkCode checks).1
  have isVisible : ∀ c ∈ code.toList, isWhitespace c = false := fun c member =>
    not_isWhitespace_of_isDigit (digits c member)
  cases typed with
  | @plain text spaced =>
      have spelled : visible text = code.toList := visible_of_spaced spaced isVisible
      have unprefixed : trimStartMatches codeLabel (trim text) = trim text := by
        apply trimStartMatches_of_digits
        rw [visible_trim, spelled]
        exact digits
      rw [readCodeFromStdin, String.toList_ofList, unprefixed, visible_trim, visible_trim,
        spelled, String.ofList_toList]
  | @prefixed lead text spaces spaced =>
      have spelled : visible text = code.toList := visible_of_spaced spaced isVisible
      have trimmedLine : trim (lead ++ (codeLabel ++ text)) =
          codeLabel ++ text.rdropWhile isWhitespace :=
        trim_append_append (by simp [codeLabel]) spaces (by simp [codeLabel, isWhitespace]) text
      have unprefixed : trimStartMatches codeLabel (text.rdropWhile isWhitespace) =
          text.rdropWhile isWhitespace := by
        apply trimStartMatches_of_digits
        rw [visible_rdropWhile, spelled]
        exact digits
      rw [readCodeFromStdin, String.toList_ofList, trimmedLine,
        trimStartMatches_append (by decide), unprefixed, visible_trim, visible_rdropWhile,
        spelled, String.ofList_toList]

/-- Generated codes, checked codes, accepted codes and typed codes are the same. -/
theorem codes_agree :
    (∀ code, checkCode code = .ok () ↔ ∃ random, code = formatCode random) ∧
      (∀ text code, validateCode text = .ok code ↔
        code = trimmed text ∧ checkCode code = .ok ()) ∧
      ∀ random line, Types (formatCode random) line →
        readCodeFromStdin line = formatCode random := by
  refine ⟨?_, validateCode_iff, ?_⟩
  · intro code
    constructor
    · exact exists_formatCode
    · intro generated
      obtain ⟨random, rfl⟩ := generated
      exact checkCode_formatCode random
  · intro random line typed
    exact readCodeFromStdin_of_types (checkCode_formatCode random) typed

end Kmwarp.Client
