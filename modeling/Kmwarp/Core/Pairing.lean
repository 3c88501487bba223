import Kmwarp.Core.Tls
import Kmwarp.Foundation.Decimal

/-!
# Pairing primitives

SPAKE2 with a six-digit code gives both sides a shared key, and a tag over a
certificate authenticates it under that key.  The cryptography itself is that
of other crates and a parameter.
-/

namespace Kmwarp.Pairing

open Foundation Wire

inductive PairingError where
  | spake
  | hmacVerifyFailed
  | codeMustBe6Digits
  | rng (text : String)
deriving DecidableEq

def pairingCodeDigits : Nat := 6

def sharedKeyLen : Nat := 32

abbrev SharedKey := Bytes32

abbrev SpakeMessage := List UInt8

/-- The third-party primitives.  A SPAKE2 session starts from a password, the
two identities and randomness. -/
structure Crypto where
  Seed : Type
  Spake2 : Type
  startA : List UInt8 → List UInt8 → List UInt8 → Seed → Spake2 × SpakeMessage
  startB : List UInt8 → List UInt8 → List UInt8 → Seed → Spake2 × SpakeMessage
  finish : Spake2 → SpakeMessage → Option (List UInt8)
  hmacSha256 : List UInt8 → List UInt8 → Bytes32
  sha256 : List UInt8 → Bytes32

def idServer : List UInt8 := asBytes "kmwarp-server"

def idClient : List UInt8 := asBytes "kmwarp-client"

/-- The code of eight random bytes, leading zeros included. -/
def formatCode (random : UInt64) : String :=
  let digits := Nat.toDigits 10 (random.toNat % 10 ^ pairingCodeDigits)
  String.ofList (List.replicate (pairingCodeDigits - digits.length) '0' ++ digits)

def checkCode (code : String) : Except PairingError Unit :=
  if (asBytes code).length ≠ pairingCodeDigits || !code.toList.all Char.isDigit then
    .error .codeMustBe6Digits
  else .ok ()

/-- The check asks for both. -/
theorem checkCode_ok_iff {code : String} :
    checkCode code = .ok () ↔
      (asBytes code).length = pairingCodeDigits ∧ code.toList.all Char.isDigit = true := by
  rw [checkCode]
  split
  · rename_i rejected
    refine iff_of_false (by simp) ?_
    intro both
    rw [both.1, both.2] at rejected
    simp at rejected
  · rename_i accepted
    simpa using accepted

theorem length_of_checkCode {code : String} (sixDigits : checkCode code = .ok ()) :
    (asBytes code).length = pairingCodeDigits :=
  (checkCode_ok_iff.mp sixDigits).1

theorem asBytes_ofList (text : List Char) :
    asBytes (String.ofList text) = text.flatMap String.utf8EncodeChar := by
  rw [asBytes, String.toUTF8, String.toByteArray_ofList, List.utf8Encode,
    List.toList_data_toByteArray]

theorem length_asBytes_ofList {digits : List Char} (allDigits : ∀ c ∈ digits, c.isDigit) :
    (asBytes (String.ofList digits)).length = digits.length := by
  rw [asBytes_ofList]
  induction digits with
  | nil => rfl
  | cons digit digits ih =>
      have ascii : digit.utf8Size = 1 := by
        have isDigit := allDigits digit List.mem_cons_self
        simp only [Char.isDigit, ge_iff_le, Bool.and_eq_true, decide_eq_true_eq] at isDigit
        rw [Char.utf8Size_eq_one_iff]
        exact UInt32.le_trans isDigit.2 (by decide)
      have later := ih fun c member => allDigits c (List.mem_cons_of_mem _ member)
      rw [List.flatMap_cons, List.length_append, String.length_utf8EncodeChar, ascii, later,
        List.length_cons, Nat.add_comm]

theorem digits_of_checkCode {code : String} (checks : checkCode code = .ok ()) :
    (∀ c ∈ code.toList, c.isDigit) ∧ code.toList.length = pairingCodeDigits := by
  obtain ⟨length, allDigits⟩ := checkCode_ok_iff.mp checks
  have digits : ∀ c ∈ code.toList, c.isDigit := List.all_eq_true.mp allDigits
  refine ⟨digits, ?_⟩
  rw [← length_asBytes_ofList digits, String.ofList_toList]
  exact length

theorem toList_formatCode (random : UInt64) :
    (formatCode random).toList =
      padded pairingCodeDigits (random.toNat % 10 ^ pairingCodeDigits) := by
  rw [formatCode, String.toList_ofList]
  rfl

/-- A code that was generated passes the check. -/
theorem checkCode_formatCode (random : UInt64) : checkCode (formatCode random) = .ok () := by
  have digits : ∀ c ∈ (formatCode random).toList, c.isDigit := by
    intro c member
    rw [toList_formatCode] at member
    exact isDigit_of_mem_padded member
  have short : random.toNat % 10 ^ pairingCodeDigits < 10 ^ pairingCodeDigits :=
    Nat.mod_lt _ (by decide)
  refine checkCode_ok_iff.mpr ⟨?_, List.all_eq_true.mpr digits⟩
  rw [← String.ofList_toList (s := formatCode random), length_asBytes_ofList digits,
    toList_formatCode, length_padded (by decide) short]

/-- Every code that passes the check could have been generated. -/
theorem exists_formatCode {code : String} (checks : checkCode code = .ok ()) :
    ∃ random, code = formatCode random := by
  obtain ⟨digits, length⟩ := digits_of_checkCode checks
  have nonempty : code.toList ≠ [] := by
    intro empty
    rw [empty] at length
    cases length
  obtain ⟨number, short, spelled⟩ := exists_padded nonempty digits
  rw [length] at short spelled
  have fits : 10 ^ pairingCodeDigits ≤ UInt64.size := by decide
  have random : (UInt64.ofNat number).toNat = number :=
    UInt64.toNat_ofNat_of_lt' (Nat.lt_of_lt_of_le short fits)
  refine ⟨UInt64.ofNat number, ?_⟩
  rw [← String.toList_inj, toList_formatCode, random, Nat.mod_eq_of_lt short, spelled]

variable (crypto : Crypto)

/-- `finish` of both sides. -/
def finishSpake (session : crypto.Spake2) (peerMsg : SpakeMessage) :
    Except PairingError SharedKey :=
  match crypto.finish session peerMsg with
  | none => .error .spake
  | some key =>
      if key.length = sharedKeyLen then .ok (toBytes32 key) else .error .spake

def certHmac (shared : SharedKey) (certDer : List UInt8) : Bytes32 :=
  crypto.hmacSha256 shared.toList certDer

def certHmacVerify (expected actual : Bytes32) : Bool :=
  expected = actual

/-! ## A small instance -/

/-- Primitives to run the flows with: the element of a side is the side's letter
and its seed, and the key is the password with the sum of the two seeds. -/
def mockCrypto : Crypto where
  Seed := UInt8
  Spake2 := UInt8 × List UInt8 × UInt8
  startA password _ _ seed := ((0x42, password, seed), [0x41, seed])
  startB password _ _ seed := ((0x41, password, seed), [0x42, seed])
  finish session peerMsg :=
    match session, peerMsg with
    | (peerSide, password, seed), [side, peerSeed] =>
        if side = peerSide then some (toBytes32 (password ++ [seed + peerSeed])).toList
        else none
    | _, _ => none
  hmacSha256 key data :=
    toBytes32 [(key.take 7 ++ data).foldl (fun tag byte => 31 * tag + byte) 1]
  sha256 := toBytes32

def mockSeed (seed : UInt8) : mockCrypto.Seed := seed

/-- The key of the code 123456 and the seeds 5 and 7. -/
def mockKey : SharedKey := toBytes32 (asBytes "123456" ++ [12])

-- The two sides agree on the key, and neither takes an element of its own side.
example :
    let server := mockCrypto.startA (asBytes "123456") idServer idClient (mockSeed 5)
    let client := mockCrypto.startB (asBytes "123456") idServer idClient (mockSeed 7)
    finishSpake mockCrypto server.1 client.2 = .ok mockKey ∧
      finishSpake mockCrypto client.1 server.2 = .ok mockKey ∧
        finishSpake mockCrypto server.1 server.2 = .error .spake := by
  decide

end Kmwarp.Pairing
