import Kmwarp.Core.Tls
import Kmwarp.Foundation.Files

/-!
# The pin file on disk

`store` writes the pin to a temporary file beside the pin file and renames it.  Paths
are file names in the directory of the pin file.
-/

namespace Kmwarp.Tls

open Foundation Wire

/-- A name up to its last dot, if there is one behind its first character. -/
def fileStem (name : List Char) : List Char :=
  match name.reverse.dropWhile (· ≠ '.') with
  | [] => name
  | [_] => name
  | _ :: stem => stem.reverse

def withExtension (name extension : String) : String :=
  String.ofList (fileStem name.toList ++ '.' :: extension.toList)

/-- What `read_to_string` makes of a file. -/
def readToString (files : Files String UInt8) (path : String) : PinFile :=
  match files path with
  | none => .missing
  | some bytes =>
      match String.fromUTF8? ⟨bytes.toArray⟩ with
      | some text => .text text
      | none => .unreadable ⟨"stream did not contain valid UTF-8"⟩

def writeLockedDown (path : String) (data : List UInt8) : List (FileOp String UInt8) :=
  overwrite path data ++ [.sync path]

namespace PinStore

def tmpOf (path : String) : String :=
  withExtension path "pin.tmp"

/-- The operations in front of the rename. -/
def prepareTmp (path : String) (pin : PinHash) : List (FileOp String UInt8) :=
  .makeDir :: writeLockedDown (tmpOf path) (asBytes (contents pin))

def storeOps (path : String) (pin : PinHash) : List (FileOp String UInt8) :=
  prepareTmp path pin ++ [.rename (tmpOf path) path]

/-- `load` of the file under a path. -/
def loadFrom (files : Files String UInt8) (path : String) :
    Except TlsError (Option PinHash) :=
  load (readToString files path)

/-- `store` with a fault; there is no result if the process stops. -/
def storeTo (fault : Fault IoError) (path : String) (pin : PinHash)
    (files : Files String UInt8) :
    Option (Except TlsError Unit) × Files String UInt8 :=
  let run := runOps fault (storeOps path pin) files
  (run.1.map (Except.mapError .io), run.2)

/-! ## The temporary file -/

/-- Only the file itself is read. -/
theorem readToString_congr {files other : Files String UInt8} {path : String}
    (same : files path = other path) : readToString files path = readToString other path := by
  rw [readToString, same]
  rfl

theorem fileStem_append_tmp (stem : List Char) :
    fileStem (stem ++ '.' :: "pin.tmp".toList) = stem ++ ".pin".toList := by
  simp [fileStem]

/-- The temporary file is never the pin file itself. -/
theorem tmpOf_ne (path : String) : tmpOf path ≠ path := by
  intro same
  have name : fileStem path.toList ++ '.' :: "pin.tmp".toList = path.toList := by
    rw [← String.toList_ofList (l := fileStem path.toList ++ _)]
    exact congrArg String.toList same
  have stem := fileStem_append_tmp (fileStem path.toList)
  rw [name] at stem
  have lengths := congrArg List.length stem
  simp at lengths

theorem prepareTmp_untouched {path : String} {pin : PinHash} :
    ∀ op ∈ prepareTmp path pin, ¬ op.Touches path := by
  intro op member
  have other : path ≠ tmpOf path := (tmpOf_ne path).symm
  simp only [prepareTmp, writeLockedDown, overwrite, List.cons_append, List.nil_append,
    List.mem_cons, List.not_mem_nil, or_false] at member
  rcases member with rfl | rfl | rfl | rfl <;> simp [FileOp.Touches, other]

/-- Whatever an earlier attempt has left in the temporary file, it holds the pin. -/
theorem performAll_prepareTmp (path : String) (pin : PinHash) (files : Files String UInt8) :
    performAll (prepareTmp path pin) files (tmpOf path) = some (asBytes (contents pin)) := by
  simp [performAll, prepareTmp, writeLockedDown, overwrite, FileOp.perform]

/-! ## All or nothing -/

theorem readToString_contents {files : Files String UInt8} {path : String} {pin : PinHash}
    (holds : files path = some (asBytes (contents pin))) :
    readToString files path = .text (contents pin) := by
  rw [readToString, holds]
  simp only [fromUTF8?_asBytes]

/-- Every operation is completed and the pin file replaced, or it is as before. -/
theorem storeTo_cases (fault : Fault IoError) (path : String) (pin : PinHash)
    (files : Files String UInt8) :
    (storeTo fault path pin files).1 = some (.ok ()) ∧
        (storeTo fault path pin files).2 path = some (asBytes (contents pin)) ∨
      (storeTo fault path pin files).1 = fault.error.map (fun error => .error (.io error)) ∧
        (storeTo fault path pin files).2 path = files path := by
  have untouched : ∀ op ∈ prepareTmp path pin, ¬ op.Touches path := prepareTmp_untouched
  have result : (storeTo fault path pin files).1 = _ :=
    congrArg (Option.map (Except.mapError TlsError.io)) runOps_result
  have left : (storeTo fault path pin files).2 path = _ := runOps_rename untouched
  rw [performAll_prepareTmp] at left
  rw [storeOps, List.length_append, List.length_singleton] at result
  by_cases early : fault.completed ≤ (prepareTmp path pin).length
  · rw [if_pos early] at left
    rw [if_pos (Nat.lt_succ_of_le early)] at result
    refine .inr ⟨result.trans ?_, left⟩
    cases fault.error <;> rfl
  · rw [if_neg early] at left
    rw [if_neg fun before => early (Nat.le_of_lt_succ before)] at result
    exact .inl ⟨result, left⟩

/-- A store on disk is a `store` of the file it reads as. -/
theorem storeTo_refines_store {fault : Fault IoError} {path : String} {pin : PinHash}
    {files : Files String UInt8} {result : Except TlsError Unit}
    (finished : (storeTo fault path pin files).1 = some result) :
    ∃ outcome, store outcome pin (readToString files path) =
      (result, readToString (storeTo fault path pin files).2 path) := by
  rcases storeTo_cases fault path pin files with ⟨done, replaced⟩ | ⟨failed, kept⟩
  · rw [done] at finished
    cases finished
    exact ⟨⟨.ok (), .ok (), .ok ()⟩, by
      rw [readToString_contents replaced]
      rfl⟩
  · rw [failed] at finished
    obtain ⟨error, _, rfl⟩ := Option.map_eq_some_iff.mp finished
    refine ⟨⟨.error error, .ok (), .ok ()⟩, ?_⟩
    rw [readToString_congr kept]
    rfl

/-- `load` after a `store` that failed or was stopped anywhere finds what it would have
found before, or the pin; after one that succeeded it finds the pin. -/
theorem storeTo_allOrNothing (fault : Fault IoError) (path : String) (pin : PinHash)
    (files : Files String UInt8) :
    let attempt := storeTo fault path pin files
    (loadFrom attempt.2 path = loadFrom files path ∨
        loadFrom attempt.2 path = .ok (some pin)) ∧
      (attempt.1 = some (.ok ()) → loadFrom attempt.2 path = .ok (some pin)) := by
  rcases storeTo_cases fault path pin files with ⟨_, replaced⟩ | ⟨failed, kept⟩
  · have loaded : loadFrom (storeTo fault path pin files).2 path = .ok (some pin) := by
      rw [loadFrom, readToString_contents replaced, load_contents]
    exact ⟨.inr loaded, fun _ => loaded⟩
  · refine ⟨.inl (congrArg load (readToString_congr kept)), ?_⟩
    intro succeeded
    rw [failed] at succeeded
    obtain ⟨error, _, failure⟩ := Option.map_eq_some_iff.mp succeeded
    cases failure

end PinStore

end Kmwarp.Tls
