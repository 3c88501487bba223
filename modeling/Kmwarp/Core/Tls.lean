import Kmwarp.Core.Platform
import Kmwarp.Core.Wire.RoundTrip
import Kmwarp.Foundation.Text

/-!
# Certificate pins

The pin of a certificate is its SHA-256.  `PinStore` keeps the peer's pin in a
file, and the verifier of a TLS handshake either compares with a pin or, while
there is none, accepts every certificate.
-/

namespace Kmwarp.Tls

open Foundation Wire

inductive CertificateError where
  | applicationVerificationFailure
deriving DecidableEq

inductive RustlsError where
  | invalidCertificate (error : CertificateError)
  | other (text : String)
deriving DecidableEq

inductive TlsError where
  | io (error : IoError)
  | rcgen (text : String)
  | badCertFormat (reason : String)
  | pinFileCorrupt (reason : String)
  | rustls (error : RustlsError)
deriving DecidableEq

def noSuchFile : IoError :=
  ⟨"No such file or directory (os error 2)"⟩

abbrev PinHash := Bytes32

def pinHashLen : Nat := 32

def pinHashOf (sha256 : List UInt8 → Bytes32) (certDer : List UInt8) : PinHash :=
  sha256 certDer

/-! ## Pin file -/

/-- What reading the pin file to a string gives. -/
inductive PinFile where
  | missing
  | unreadable (error : IoError)
  | text (contents : String)
deriving DecidableEq

namespace PinStore

def load : PinFile → Except TlsError (Option PinHash)
  | .missing => .ok none
  | .unreadable error => .error (.io error)
  | .text contents =>
      match hexDecode (trim contents.toList) with
      | none => .error (.pinFileCorrupt "not valid hex")
      | some bytes =>
          if bytes.length = pinHashLen then .ok (some (toBytes32 bytes))
          else .error (.pinFileCorrupt
            s!"decoded to {bytes.length} bytes, expected 32")

/-- What `store` leaves in the file. -/
def contents (pin : PinHash) : String :=
  String.ofList (hexEncode pin.toList ++ ['\n'])

/-- A stored pin is loaded back. -/
theorem load_contents (pin : PinHash) : load (.text (contents pin)) = .ok (some pin) := by
  have decoded : hexDecode (trim (contents pin).toList) = some pin.toList := by
    rw [contents, String.toList_ofList,
      trim_append_newline (not_isWhitespace_hexEncode pin.toList), hexDecode_hexEncode]
  simp only [load, decoded, Vector.length_toList, pinHashLen, if_true, toBytes32_toList]

/-- With surrounding whitespace trimmed, the text is 64 hexadecimal digits that
decode to the pin. -/
structure Spells (contents : String) (pin : PinHash) : Prop where
  length : (trim contents.toList).length = 2 * pinHashLen
  digits : ∀ c ∈ trim contents.toList, (hexValue c).isSome
  decodes : hexDecode (trim contents.toList) = some pin.toList

/-- A pin is loaded from a text that spells it, and from nothing else. -/
theorem load_eq_some_iff {file : PinFile} {pin : PinHash} :
    load file = .ok (some pin) ↔ ∃ contents, file = .text contents ∧ Spells contents pin := by
  constructor
  · intro loads
    cases file with
    | missing => cases loads
    | unreadable error => cases loads
    | text contents =>
        refine ⟨contents, rfl, ?_⟩
        rw [load] at loads
        split at loads
        · cases loads
        · rename_i bytes decoded
          split at loads
          · rename_i length
            have same : toBytes32 bytes = pin := Option.some.inj (Except.ok.inj loads)
            have digits := digits_of_hexDecode decoded
            refine ⟨by rw [digits.1, length], digits.2, ?_⟩
            rw [decoded, ← same, toList_toBytes32 length]
          · contradiction
  · rintro ⟨contents, rfl, spells⟩
    simp only [load, spells.decodes, Vector.length_toList, pinHashLen, if_true,
      toBytes32_toList]

/-- No pin is loaded only while there is no file. -/
theorem load_eq_none_iff {file : PinFile} : load file = .ok none ↔ file = .missing := by
  constructor
  · intro loads
    cases file with
    | missing => rfl
    | unreadable error => cases loads
    | text contents =>
        rw [load] at loads
        split at loads
        · contradiction
        · split at loads <;> simp at loads
  · rintro rfl
    rfl

/-- How the file operations of a `store` come out. -/
structure StoreOutcome where
  createDirAll : Except IoError Unit
  writeTmp : Except IoError Unit
  rename : Except IoError Unit

/-- The result of `store` and the file it leaves, which only the rename
replaces. -/
def store (outcome : StoreOutcome) (pin : PinHash) (file : PinFile) :
    Except TlsError Unit × PinFile :=
  match outcome.createDirAll, outcome.writeTmp, outcome.rename with
  | .error error, _, _ | .ok (), .error error, _ | .ok (), .ok (), .error error =>
      (.error (.io error), file)
  | .ok (), .ok (), .ok () => (.ok (), .text (contents pin))

end PinStore

/-! ## Certificate verifiers -/

/-- The verifier a TLS configuration is built with. -/
inductive CertVerifier where
  | pinned (expectedPin : PinHash)
  | permissive
deriving DecidableEq

namespace CertVerifier

/-- A pin is always checked; without one the handshake is in pairing mode. -/
def ofPinned : Option PinHash → CertVerifier
  | some pin => .pinned pin
  | none => .permissive

/-- The verdict on the peer's end-entity certificate. -/
def verifyCert (sha256 : List UInt8 → Bytes32) (verifier : CertVerifier)
    (endEntity : List UInt8) : Except RustlsError Unit :=
  match verifier with
  | .pinned expectedPin =>
      if pinHashOf sha256 endEntity = expectedPin then .ok ()
      else .error (.invalidCertificate .applicationVerificationFailure)
  | .permissive => .ok ()

end CertVerifier

end Kmwarp.Tls
