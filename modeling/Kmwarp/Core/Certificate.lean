import Kmwarp.Core.Tls
import Kmwarp.Foundation.Files

/-!
# The certificate on disk

At its first launch a program generates a certificate with its private key and writes
each to a file of its own, in place and one after the other.  A later launch loads them if
both files exist.
-/

namespace Kmwarp.Tls

open Foundation

/-- A certificate and its private key, both as DER. -/
structure CertBundle where
  certDer : List UInt8
  privateKeyDer : List UInt8
deriving DecidableEq

def certPath : String := "cert.der"

def keyPath : String := "key.der"

/-- `std::fs::read` -/
def readFile (files : Files String UInt8) (path : String) : Except TlsError (List UInt8) :=
  match files path with
  | none => .error (.io noSuchFile)
  | some bytes => .ok bytes

def loadFromDisk (files : Files String UInt8) : Except TlsError CertBundle := do
  let certDer ← readFile files certPath
  let privateKeyDer ← readFile files keyPath
  if certDer = [] then
    .error (.badCertFormat "cert file is empty")
  else if privateKeyDer = [] then
    .error (.badCertFormat "key file is empty")
  else
    .ok ⟨certDer, privateKeyDer⟩

def writeKeyLockedDown (data : List UInt8) : List (FileOp String UInt8) :=
  overwrite keyPath data ++ [.sync keyPath]

/-- `default_paths_in` puts both files in one directory, which is made for each. -/
def saveToDisk (bundle : CertBundle) : List (FileOp String UInt8) :=
  [.makeDir, .makeDir] ++
    (overwrite certPath bundle.certDer ++ writeKeyLockedDown bundle.privateKeyDer)

structure BootstrapError where
  context : String
  error : TlsError
deriving DecidableEq

def withContext {α : Type} (context : String) (result : Except TlsError α) :
    Except BootstrapError α :=
  result.mapError (⟨context, ·⟩)

/-- The bootstrap of `run_server` and `run_client`, with what `generate_self_signed`
returns if it is called.  Nothing disturbs its save. -/
def bootstrap (generated : Except TlsError CertBundle) (files : Files String UInt8) :
    Except BootstrapError CertBundle × Files String UInt8 :=
  if (files certPath).isSome && (files keyPath).isSome then
    (withContext "loading cert / key from disk" (loadFromDisk files), files)
  else
    match generated with
    | .error error => (.error ⟨"generating self-signed cert", error⟩, files)
    | .ok bundle => (.ok bundle, performAll (saveToDisk bundle) files)

/-- What a launch leaves whose save has a fault. -/
def interruptedSave (fault : Fault IoError) (bundle : CertBundle)
    (files : Files String UInt8) : Files String UInt8 :=
  (runOps fault (saveToDisk bundle) files).2

/-! ## The files of an interrupted save -/

section InterruptedSave

variable {fault : Fault IoError} {bundle : CertBundle} {files : Files String UInt8}

theorem interruptedSave_cert :
    interruptedSave fault bundle files certPath =
      if fault.completed ≤ 2 then files certPath
      else if fault.completed = 3 then some (bundle.certDer.take fault.progress)
      else some bundle.certDer := by
  apply runOps_overwrite
  · simp [FileOp.Touches]
  · simp [writeKeyLockedDown, overwrite, FileOp.Touches, certPath, keyPath]

theorem interruptedSave_key :
    interruptedSave fault bundle files keyPath =
      if fault.completed ≤ 4 then files keyPath
      else if fault.completed = 5 then some (bundle.privateKeyDer.take fault.progress)
      else some bundle.privateKeyDer := by
  have saves : saveToDisk bundle =
      ([.makeDir, .makeDir] ++ overwrite certPath bundle.certDer) ++
        (overwrite keyPath bundle.privateKeyDer ++ [.sync keyPath]) := rfl
  rw [interruptedSave, saves]
  apply runOps_overwrite
  · simp [overwrite, FileOp.Touches, certPath, keyPath]
  · simp [FileOp.Touches]

end InterruptedSave

/-! ## Recovery -/

section Recovery

variable (belongs : List UInt8 → List UInt8 → Prop)

/-- What `generate_self_signed` returns: the key belongs to the certificate, neither
is empty, and no part of either, cut off before its end, can stand for it. -/
structure Generates (bundle : CertBundle) : Prop where
  paired : belongs bundle.privateKeyDer bundle.certDer
  cert_ne_nil : bundle.certDer ≠ []
  key_ne_nil : bundle.privateKeyDer ≠ []
  cutKey : ∀ n < bundle.privateKeyDer.length,
    ¬ belongs (bundle.privateKeyDer.take n) bundle.certDer
  cutCert : ∀ key, ∀ n < bundle.certDer.length, ¬ belongs key (bundle.certDer.take n)

/-- The certificate is none for a key that was there before. -/
def FreshFor (files : Files String UInt8) (bundle : CertBundle) : Prop :=
  ∀ key, files keyPath = some key → ¬ belongs key bundle.certDer

/-- The next launch has a certificate with the key that belongs to it. -/
def Recovers (files : Files String UInt8) : Prop :=
  ∀ next, Generates belongs next →
    ∃ obtained, (bootstrap (.ok next) files).1 = .ok obtained ∧
      belongs obtained.privateKeyDer obtained.certDer

variable {belongs} {files : Files String UInt8}

theorem recovers_of_absent (absent : files certPath = none ∨ files keyPath = none) :
    Recovers belongs files := by
  intro next generates
  refine ⟨next, ?_, generates.paired⟩
  rcases absent with noCert | noKey
  · simp [bootstrap, noCert]
  · simp [bootstrap, noKey]

theorem loadFromDisk_of_both {certDer key : List UInt8}
    (cert : files certPath = some certDer) (privateKey : files keyPath = some key) :
    loadFromDisk files =
      if certDer = [] then .error (.badCertFormat "cert file is empty")
      else if key = [] then .error (.badCertFormat "key file is empty")
      else .ok ⟨certDer, key⟩ := by
  rw [loadFromDisk, readFile, readFile, cert, privateKey]
  rfl

/-- With both files there, what they hold must be a pair. -/
theorem recovers_of_both {certDer key : List UInt8} {bundle : CertBundle}
    (generates : Generates belongs bundle)
    (cert : files certPath = some certDer) (privateKey : files keyPath = some key) :
    Recovers belongs files ↔ certDer ≠ [] ∧ key ≠ [] ∧ belongs key certDer := by
  have loads : ∀ next, (bootstrap (.ok next) files).1 =
      withContext "loading cert / key from disk" (loadFromDisk files) := by
    intro next
    simp [bootstrap, cert, privateKey]
  rw [loadFromDisk_of_both cert privateKey] at loads
  constructor
  · intro recovers
    obtain ⟨obtained, booted, paired⟩ := recovers bundle generates
    rw [loads] at booted
    by_cases noCert : certDer = []
    · rw [if_pos noCert] at booted
      cases booted
    · rw [if_neg noCert] at booted
      by_cases noKey : key = []
      · rw [if_pos noKey] at booted
        cases booted
      · rw [if_neg noKey] at booted
        cases booted
        exact ⟨noCert, noKey, paired⟩
  · intro both next _
    obtain ⟨certThere, keyThere, paired⟩ := both
    refine ⟨⟨certDer, key⟩, ?_, paired⟩
    rw [loads, if_neg certThere, if_neg keyThere]
    rfl

/-- The save has not opened the certificate, or not the key where there was none, or it
has written the key. -/
def AtSafePoint (fault : Fault IoError) (bundle : CertBundle)
    (files : Files String UInt8) : Prop :=
  fault.completed ≤ 2 ∨
    (files keyPath = none ∧ fault.completed ≤ 4) ∨
    (fault.completed = 5 ∧ bundle.privateKeyDer.length ≤ fault.progress) ∨
    6 ≤ fault.completed

variable {fault : Fault IoError} {bundle : CertBundle}

/-- While a certificate is written, or behind it, an earlier key does not belong to it. -/
theorem not_recovers_olderKey (generates : Generates belongs bundle)
    (fresh : FreshFor belongs files bundle) {key : List UInt8}
    (older : files keyPath = some key) (opened : ¬ fault.completed ≤ 2)
    (early : fault.completed ≤ 4) :
    ¬ Recovers belongs (interruptedSave fault bundle files) := by
  have privateKey : interruptedSave fault bundle files keyPath = some key := by
    rw [interruptedSave_key, if_pos early, older]
  have part : ∃ n, interruptedSave fault bundle files certPath =
      some (bundle.certDer.take n) := by
    rw [interruptedSave_cert, if_neg opened]
    split
    · exact ⟨_, rfl⟩
    · exact ⟨bundle.certDer.length, by rw [List.take_length]⟩
  obtain ⟨n, cert⟩ := part
  rw [recovers_of_both generates cert privateKey]
  intro both
  by_cases cut : n < bundle.certDer.length
  · exact generates.cutCert key n cut both.2.2
  · rw [List.take_of_length_le (Nat.le_of_not_lt cut)] at both
    exact fresh key older both.2.2

/-- While the key is written, it does not belong to the certificate. -/
theorem recovers_writingKey (generates : Generates belongs bundle)
    (writing : fault.completed = 5) :
    Recovers belongs (interruptedSave fault bundle files) ↔
      bundle.privateKeyDer.length ≤ fault.progress := by
  have cert : interruptedSave fault bundle files certPath = some bundle.certDer := by
    rw [interruptedSave_cert, writing]
    rfl
  have privateKey : interruptedSave fault bundle files keyPath =
      some (bundle.privateKeyDer.take fault.progress) := by
    rw [interruptedSave_key, writing]
    rfl
  rw [recovers_of_both generates cert privateKey]
  constructor
  · intro both
    by_contra cut
    exact generates.cutKey _ (Nat.lt_of_not_le cut) both.2.2
  · intro whole
    rw [List.take_of_length_le whole]
    exact ⟨generates.cert_ne_nil, generates.key_ne_nil, generates.paired⟩

theorem recovers_savedKey (generates : Generates belongs bundle)
    (saved : 6 ≤ fault.completed) :
    Recovers belongs (interruptedSave fault bundle files) := by
  have cert : interruptedSave fault bundle files certPath = some bundle.certDer := by
    rw [interruptedSave_cert, if_neg (by omega), if_neg (by omega)]
  have privateKey : interruptedSave fault bundle files keyPath =
      some bundle.privateKeyDer := by
    rw [interruptedSave_key, if_neg (by omega), if_neg (by omega)]
  rw [recovers_of_both generates cert privateKey]
  exact ⟨generates.cert_ne_nil, generates.key_ne_nil, generates.paired⟩

/-- The next launch recovers from an interrupted save if and only if the save was at a
safe point. -/
theorem recovers_iff_atSafePoint (generates : Generates belongs bundle)
    (fresh : FreshFor belongs files bundle)
    (first : files certPath = none ∨ files keyPath = none) :
    Recovers belongs (interruptedSave fault bundle files) ↔ AtSafePoint fault bundle files := by
  by_cases unopened : fault.completed ≤ 2
  · refine iff_of_true (recovers_of_absent ?_) (.inl unopened)
    rw [interruptedSave_cert, if_pos unopened, interruptedSave_key, if_pos (by omega)]
    exact first
  · by_cases early : fault.completed ≤ 4
    · cases older : files keyPath with
      | none =>
          refine iff_of_true (recovers_of_absent (.inr ?_)) (.inr (.inl ⟨older, early⟩))
          rw [interruptedSave_key, if_pos early, older]
      | some key =>
          refine iff_of_false (not_recovers_olderKey generates fresh older unopened early) ?_
          rw [AtSafePoint, older]
          simp
          omega
    · by_cases writing : fault.completed = 5
      · rw [recovers_writingKey generates writing, AtSafePoint]
        omega
      · have saved : 6 ≤ fault.completed := by omega
        exact iff_of_true (recovers_savedKey generates saved) (.inr (.inr (.inr saved)))

end Recovery

/-! ## A key with its length in front -/

/-- The certificate is the key behind a header with its length. -/
def Headed (key certDer : List UInt8) : Prop :=
  key ≠ [] ∧ certDer = 0x30 :: UInt8.ofNat key.length :: key

def headedBundle : CertBundle where
  certDer := [0x30, 1, 7]
  privateKeyDer := [7]

theorem generates_headedBundle : Generates Headed headedBundle := by
  constructor
  · exact ⟨List.cons_ne_nil _ _, rfl⟩
  · exact List.cons_ne_nil _ _
  · exact List.cons_ne_nil _ _
  · intro n cut headed
    obtain rfl : n = 0 := Nat.lt_one_iff.mp cut
    exact headed.1 rfl
  · intro key n cut headed
    obtain ⟨nonempty, cert⟩ := headed
    have lengths := congrArg List.length cert
    have longer : 0 < key.length := List.length_pos_of_ne_nil nonempty
    rw [List.length_take] at lengths
    simp [headedBundle] at lengths cut
    omega

/-- An older key does not go with the part of the certificate that was written. -/
theorem recovers_iff_atSafePoint_olderKey :
    let older : Files String UInt8 := fun path => if path = keyPath then some [9] else none
    ¬ Recovers Headed (interruptedSave ⟨3, 2, none⟩ headedBundle older) := by
  intro older recovers
  have fresh : FreshFor Headed older headedBundle := by
    intro key found headed
    cases found
    exact absurd headed.2 (by decide)
  have safe := (recovers_iff_atSafePoint generates_headedBundle fresh (.inl rfl)).mp recovers
  revert safe
  simp [AtSafePoint, older]

/-- A launch that is stopped with the key file open leaves a key file that is empty. -/
theorem not_recovers_emptyKey :
    ¬ ∀ (fault : Fault IoError) (bundle : CertBundle) (files : Files String UInt8),
      Generates Headed bundle → FreshFor Headed files bundle →
      (files certPath = none ∨ files keyPath = none) →
      Recovers Headed (interruptedSave fault bundle files) := by
  intro always
  have recovers := always ⟨5, 0, none⟩ headedBundle (fun _ => none) generates_headedBundle
    (fun _ found => by cases found) (.inl rfl)
  obtain ⟨obtained, booted, _⟩ := recovers headedBundle generates_headedBundle
  have failed : (bootstrap (.ok headedBundle)
      (interruptedSave ⟨5, 0, none⟩ headedBundle fun _ => none)).1 =
        .error ⟨"loading cert / key from disk", .badCertFormat "key file is empty"⟩ := by
    rfl
  rw [failed] at booted
  cases booted

end Kmwarp.Tls
