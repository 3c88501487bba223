import Mathlib.Data.List.Basic
import Mathlib.Logic.Function.Basic

/-!
# Files

A program works on its files one operation after the other.  At any of them it may be
stopped or told of an error; a write may have been made in part by then.
-/

namespace Kmwarp.Foundation

universe u v w

variable {Path : Type u} {β : Type v} {ε : Type w}

/-- What there is under each path. -/
abbrev Files (Path : Type u) (β : Type v) : Type (max u v) := Path → Option (List β)

/-- A file is written behind what it holds, and a rename replaces its target at once. -/
inductive FileOp (Path : Type u) (β : Type v) where
  | makeDir
  | openTruncated (path : Path)
  | write (path : Path) (items : List β)
  | sync (path : Path)
  | rename (source target : Path)

/-- Where a sequence of operations ends early: behind `completed` of them, with
`progress` items of the next one if that is a write.  Without an error it is the program
that stops. -/
structure Fault (ε : Type w) where
  completed : Nat
  progress : Nat
  error : Option ε

namespace FileOp

/-- The operation may change what is under the path. -/
def Touches (op : FileOp Path β) (path : Path) : Prop :=
  match op with
  | .makeDir | .sync _ => False
  | .openTruncated touched | .write touched _ => path = touched
  | .rename source target => path = source ∨ path = target

variable [DecidableEq Path]

def perform (op : FileOp Path β) (files : Files Path β) : Files Path β :=
  match op with
  | .makeDir | .sync _ => files
  | .openTruncated path => Function.update files path (some [])
  | .write path items => Function.update files path (some ((files path).getD [] ++ items))
  | .rename source target =>
      Function.update (Function.update files source none) target (files source)

/-- The part of a write that was made, and nothing of any other operation. -/
def performPart (progress : Nat) (op : FileOp Path β) (files : Files Path β) :
    Files Path β :=
  match op with
  | .write path items => (FileOp.write path (items.take progress)).perform files
  | _ => files

theorem perform_of_not_touches {op : FileOp Path β} {path : Path}
    (untouched : ¬ op.Touches path) (files : Files Path β) :
    op.perform files path = files path := by
  cases op with
  | makeDir | sync => rfl
  | openTruncated | write => exact Function.update_of_ne untouched _ _
  | rename source target =>
      obtain ⟨notSource, notTarget⟩ := not_or.mp untouched
      rw [perform, Function.update_of_ne notTarget, Function.update_of_ne notSource]

theorem performPart_of_not_touches {op : FileOp Path β} {path : Path}
    (untouched : ¬ op.Touches path) (progress : Nat) (files : Files Path β) :
    op.performPart progress files path = files path := by
  cases op with
  | write touched items =>
      let part : FileOp Path β := .write touched (items.take progress)
      have apart : ¬ part.Touches path := untouched
      exact perform_of_not_touches apart files
  | makeDir | sync | openTruncated | rename => rfl

end FileOp

/-! ## Sequences of operations -/

variable [DecidableEq Path]

def performAll (ops : List (FileOp Path β)) (files : Files Path β) : Files Path β :=
  ops.foldl (fun files op => op.perform files) files

/-- The result the program gets, if it is there to get one, and the files that are left.
A fault behind the last operation does not happen. -/
def runOps : Fault ε → List (FileOp Path β) → Files Path β →
    Option (Except ε Unit) × Files Path β
  | _, [], files => (some (.ok ()), files)
  | ⟨0, progress, error⟩, op :: _, files => (error.map .error, op.performPart progress files)
  | ⟨completed + 1, progress, error⟩, op :: ops, files =>
      runOps ⟨completed, progress, error⟩ ops (op.perform files)

variable {fault : Fault ε} {ops : List (FileOp Path β)} {files : Files Path β} {path : Path}

theorem performAll_of_not_touches (untouched : ∀ op ∈ ops, ¬ op.Touches path) :
    performAll ops files path = files path := by
  induction ops generalizing files with
  | nil => rfl
  | cons op ops ih =>
      have later : performAll ops (op.perform files) path = op.perform files path :=
        ih fun other member => untouched other (List.mem_cons_of_mem op member)
      have here := FileOp.perform_of_not_touches (untouched op List.mem_cons_self) files
      exact later.trans here

theorem runOps_of_not_touches (untouched : ∀ op ∈ ops, ¬ op.Touches path) :
    (runOps fault ops files).2 path = files path := by
  induction ops generalizing fault files with
  | nil => rfl
  | cons op ops ih =>
      obtain ⟨completed, progress, error⟩ := fault
      have untouchedOp := untouched op List.mem_cons_self
      cases completed with
      | zero => exact FileOp.performPart_of_not_touches untouchedOp progress files
      | succ completed =>
          rw [runOps, ih fun other member => untouched other (List.mem_cons_of_mem op member)]
          exact FileOp.perform_of_not_touches untouchedOp files

/-- A fault in the first operations keeps the others from being run. -/
theorem runOps_append (first second : List (FileOp Path β)) :
    runOps fault (first ++ second) files =
      if fault.completed < first.length then runOps fault first files
      else runOps { fault with completed := fault.completed - first.length } second
        (performAll first files) := by
  induction first generalizing fault files with
  | nil => rfl
  | cons op first ih =>
      obtain ⟨completed, progress, error⟩ := fault
      cases completed with
      | zero => rfl
      | succ completed =>
          rw [List.cons_append, runOps, runOps, ih]
          simp [performAll]

/-- The program gets no result but that of the fault. -/
theorem runOps_result :
    (runOps fault ops files).1 =
      if fault.completed < ops.length then fault.error.map .error else some (.ok ()) := by
  induction ops generalizing fault files with
  | nil => rfl
  | cons op ops ih =>
      obtain ⟨completed, progress, error⟩ := fault
      cases completed with
      | zero => rfl
      | succ completed =>
          rw [runOps, ih]
          simp

/-! ## Replacing a file -/

/-- A rename replaces its target as a whole, if the operations before it leave the target
alone. -/
theorem runOps_rename {source target : Path}
    (untouched : ∀ op ∈ ops, ¬ op.Touches target) :
    (runOps fault (ops ++ [.rename source target]) files).2 target =
      if fault.completed ≤ ops.length then files target else performAll ops files source := by
  obtain ⟨completed, progress, error⟩ := fault
  rw [runOps_append]
  split
  · rename_i early
    rw [if_pos (Nat.le_of_lt early), runOps_of_not_touches untouched]
  · rename_i late
    cases behind : completed - ops.length with
    | zero =>
        rw [if_pos (Nat.sub_eq_zero_iff_le.mp behind)]
        exact performAll_of_not_touches untouched
    | succ further =>
        have past : ¬ completed ≤ ops.length := by omega
        rw [if_neg past]
        exact Function.update_self ..

/-- The operations that write a file in place. -/
def overwrite (path : Path) (items : List β) : List (FileOp Path β) :=
  [.openTruncated path, .write path items]

/-- A file that is written in place is lost from when it is opened to when it is written. -/
theorem runOps_overwrite {before after : List (FileOp Path β)} {items : List β}
    (untouchedBefore : ∀ op ∈ before, ¬ op.Touches path)
    (untouchedAfter : ∀ op ∈ after, ¬ op.Touches path) :
    (runOps fault (before ++ (overwrite path items ++ after)) files).2 path =
      if fault.completed ≤ before.length then files path
      else if fault.completed = before.length + 1 then some (items.take fault.progress)
      else some items := by
  obtain ⟨completed, progress, error⟩ := fault
  have unopened : performAll before files path = files path :=
    performAll_of_not_touches untouchedBefore
  rw [runOps_append]
  split
  · rename_i early
    rw [if_pos (Nat.le_of_lt early), runOps_of_not_touches untouchedBefore]
  · rename_i late
    cases behind : completed - before.length with
    | zero =>
        rw [if_pos (Nat.sub_eq_zero_iff_le.mp behind)]
        exact unopened
    | succ further =>
        have opened : ¬ completed ≤ before.length := by omega
        rw [if_neg opened]
        cases further with
        | zero =>
            have writing : completed = before.length + 1 := by omega
            rw [if_pos writing]
            simp [overwrite, runOps, FileOp.performPart, FileOp.perform]
        | succ further =>
            have written : ¬ completed = before.length + 1 := by omega
            rw [if_neg written]
            simp only [overwrite, List.cons_append, List.nil_append, runOps]
            rw [runOps_of_not_touches untouchedAfter]
            simp [FileOp.perform]

end Kmwarp.Foundation
