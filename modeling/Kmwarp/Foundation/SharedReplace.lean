import Kmwarp.Foundation.Runs
import Mathlib.Logic.Function.Basic

/-!
# Replacing a file through one temporary file

Several writers replace a file at the same time.  Each writes a temporary file, at once or
in parts, and renames it, and all use the same temporary name.  A name leads to an inode; an
open file stays with the inode that it was opened with, whatever becomes of the name.
-/

namespace Kmwarp.Foundation

universe u v w

/-- Where a writer is, with the inode of its open file, and how much of its data it has
written as long as that is not all.  An abandoned writer has failed before. -/
inductive WriterPc (ε : Type w) where
  | idle
  | opened (inode progress : Nat)
  | written (inode : Nat)
  | synced (inode : Nat)
  | abandoned (inode : Option Nat) (error : ε)
  | ended (inode : Nat) (result : Except ε Unit)

namespace WriterPc

variable {ε : Type w}

def inode? : WriterPc ε → Option Nat
  | .idle => none
  | .opened inode _ | .written inode | .synced inode | .ended inode _ => some inode
  | .abandoned inode _ => inode

/-- The inode that the writer has opened and not written as a whole. -/
def unwritten? : WriterPc ε → Option Nat
  | .opened inode _ => some inode
  | .abandoned inode _ => inode
  | .idle | .written _ | .synced _ | .ended _ _ => none

end WriterPc

/-- `fresh` and everything above it are unused inodes. -/
structure SharedReplace (ι : Type u) (β : Type v) (ε : Type w) where
  inodes : Nat → List β
  fresh : Nat
  tmp : Option Nat
  target : Option Nat
  writers : ι → WriterPc ε

/-- A write puts the next `count` items of the writer's data into its file.  A writer that
fails may have written a part of them by then. -/
inductive ReplaceLabel (ι : Type u) (ε : Type w) where
  | openTmp (writer : ι)
  | write (writer : ι) (count : Nat)
  | sync (writer : ι)
  | rename (writer : ι)
  | fail (writer : ι) (error : ε)

def ReplaceLabel.writer {ι : Type u} {ε : Type w} : ReplaceLabel ι ε → ι
  | .openTmp writer | .write writer _ | .sync writer | .rename writer | .fail writer _ => writer

section Overlay

variable {β : Type v} {hole : β} {start : Nat} {piece held : List β}

/-- A piece written into a file from `start` on.  If the file is shorter it is filled up. -/
def overlay (hole : β) (start : Nat) (piece held : List β) : List β :=
  (held.take start).rightpad start hole ++ piece ++ held.drop (start + piece.length)

theorem length_overlay :
    (overlay hole start piece held).length = max held.length (start + piece.length) := by
  simp only [overlay, List.length_append, List.length_rightpad, List.length_take,
    List.length_drop]
  omega

/-- What is in a place was there, is filled in, or comes from the piece. -/
theorem overlay_cases {place : Nat} {item : β}
    (found : (overlay hole start piece held)[place]? = some item) :
    held[place]? = some item ∨ item = hole ∨
      start ≤ place ∧ piece[place - start]? = some item := by
  have padded : ((held.take start).rightpad start hole).length = start := by
    rw [List.length_rightpad, List.length_take]
    omega
  rw [overlay, List.append_assoc] at found
  by_cases early : place < start
  · rw [List.getElem?_append_left (by rwa [padded]), List.rightpad] at found
    by_cases inside : place < (held.take start).length
    · rw [List.getElem?_append_left inside, List.getElem?_take, if_pos early] at found
      exact .inl found
    · rw [List.getElem?_append_right (Nat.not_lt.mp inside)] at found
      exact .inr (.inl (List.eq_of_mem_replicate (List.mem_of_getElem? found)))
  · have behind : start ≤ place := Nat.not_lt.mp early
    rw [List.getElem?_append_right (by rwa [padded]), padded] at found
    by_cases inside : place - start < piece.length
    · rw [List.getElem?_append_left inside] at found
      exact .inr (.inr ⟨behind, found⟩)
    · rw [List.getElem?_append_right (Nat.not_lt.mp inside), List.getElem?_drop] at found
      have same : start + piece.length + (place - start - piece.length) = place := by omega
      exact .inl (same ▸ found)

/-- Nothing is left of a file that is not longer. -/
theorem overlay_whole (covers : held.length ≤ piece.length) :
    overlay hole 0 piece held = piece := by
  rw [overlay, Nat.zero_add, List.drop_eq_nil_of_le covers, List.append_nil]
  rfl

end Overlay

namespace SharedReplace

variable {ι : Type u} {β : Type v} {ε : Type w} [DecidableEq ι]

/-- Move a writer to another place. -/
def move (files : SharedReplace ι β ε) (writer : ι) (pc : WriterPc ε) :
    SharedReplace ι β ε :=
  { files with writers := Function.update files.writers writer pc }

/-- What the next write of a writer makes of the inode that it has open. -/
def writing (data : ι → List β) (hole : β) (files : SharedReplace ι β ε) (writer : ι)
    (count inode progress : Nat) : List β :=
  overlay hole progress (((data writer).drop progress).take count) (files.inodes inode)

/-- The file is truncated if there is one under the temporary name, and created otherwise.
A write goes on where the writer's last one has ended, whatever others have done to the file.
A rename takes what is under the temporary name, and fails with `missing` if nothing is. -/
def step (data : ι → List β) (hole : β) (missing : ε) (files : SharedReplace ι β ε) :
    ReplaceLabel ι ε → Option (SharedReplace ι β ε)
  | .openTmp writer =>
      match files.writers writer with
      | .idle =>
          let inode := files.tmp.getD files.fresh
          some { files.move writer (.opened inode 0) with
            inodes := Function.update files.inodes inode []
            fresh := max files.fresh (inode + 1)
            tmp := some inode }
      | _ => none
  | .write writer count =>
      match files.writers writer with
      | .opened inode progress =>
          if 0 < count ∧ progress + count ≤ (data writer).length then
            let pc := if progress + count = (data writer).length then .written inode
              else .opened inode (progress + count)
            some { files.move writer pc with
              inodes := Function.update files.inodes inode
                (files.writing data hole writer count inode progress) }
          else none
      | _ => none
  | .sync writer =>
      match files.writers writer with
      | .written inode => some (files.move writer (.synced inode))
      | _ => none
  | .rename writer =>
      match files.writers writer with
      | .synced inode =>
          match files.tmp with
          | none => some (files.move writer (.ended inode (.error missing)))
          | some tmp =>
              some { files.move writer (.ended inode (.ok ())) with
                tmp := none
                target := some tmp }
      | _ => none
  | .fail writer error =>
      match files.writers writer with
      | .idle => some (files.move writer (.abandoned none error))
      | .opened inode _ => some (files.move writer (.abandoned (some inode) error))
      | .written inode | .synced inode =>
          some (files.move writer (.ended inode (.error error)))
      | .abandoned .. | .ended .. => none

/-- What there is under the target name. -/
def targetContent (files : SharedReplace ι β ε) : Option (List β) :=
  files.target.map files.inodes

/-- Some write of the writer in the run puts only a part of its data into the file. -/
def WritesParts (data : ι → List β) (labels : List (ReplaceLabel ι ε)) (writer : ι) : Prop :=
  ∃ count < (data writer).length, .write writer count ∈ labels

/-! ## What holds throughout -/

/-- The names lead to used inodes, and to different ones. -/
structure Named (files : SharedReplace ι β ε) : Prop where
  tmpUsed : ∀ inode, files.tmp = some inode → inode < files.fresh
  targetUsed : ∀ inode, files.target = some inode → inode < files.fresh
  apart : ∀ inode, files.tmp = some inode → files.target ≠ some inode

/-- Some writer has opened the inode. -/
def Held (files : SharedReplace ι β ε) (inode : Nat) : Prop :=
  ∃ writer, (files.writers writer).inode? = some inode

/-- Some writer has opened the inode and not written it as a whole. -/
def Unwritten (files : SharedReplace ι β ε) (inode : Nat) : Prop :=
  ∃ writer, (files.writers writer).unwritten? = some inode

/-- The inode is not longer than what the writers write, and every item in it is the one that
a writer of the inode has in that place, or is filled in. -/
structure Patched (data : ι → List β) (hole : β) (files : SharedReplace ι β ε) (inode : Nat) :
    Prop where
  short : ∀ writer, (files.inodes inode).length ≤ (data writer).length
  attributed : ∀ (place : Nat) (item : β), (files.inodes inode)[place]? = some item →
    item = hole ∨
      ∃ writer, (files.writers writer).inode? = some inode ∧ (data writer)[place]? = some item

/-- The inode holds the data of a writer, or it is empty and unwritten, or one of those that
write in parts has opened it and it is patched together. -/
def Settled (data : ι → List β) (hole : β) (inParts : ι → Prop) (files : SharedReplace ι β ε)
    (inode : Nat) : Prop :=
  (∃ writer, (files.writers writer).inode? = some inode ∧
      files.inodes inode = data writer) ∨
    files.inodes inode = [] ∧ files.Unwritten inode ∨
    (∃ writer, (files.writers writer).inode? = some inode ∧ inParts writer) ∧
      files.Patched data hole inode

/-- The target is as it was, and no writer has succeeded. -/
def Untouched (files initial : SharedReplace ι β ε) : Prop :=
  files.target = initial.target ∧
    (∀ inode, files.target = some inode →
      ¬ files.Held inode ∧ files.inodes inode = initial.inodes inode) ∧
    ∀ writer inode, files.writers writer ≠ .ended inode (.ok ())

/-- Before the first writer, whatever an earlier one has left under the names. -/
structure Quiet (files : SharedReplace ι β ε) : Prop extends files.Named where
  idle : ∀ writer, files.writers writer = .idle

structure Sharing (data : ι → List β) (hole : β) (inParts : ι → Prop)
    (files initial : SharedReplace ι β ε) : Prop extends files.Named where
  heldUsed : ∀ inode, files.Held inode → inode < files.fresh
  tmpHeld : ∀ inode other, files.Held other → files.tmp = some inode → files.Held inode
  settled : ∀ inode, files.Held inode → files.Settled data hole inParts inode
  replaced : files.Untouched initial ∨ ∃ inode, files.target = some inode ∧ files.Held inode

variable {data : ι → List β} {hole : β} {missing : ε} {inParts : ι → Prop}
  {initial files next : SharedReplace ι β ε}

omit [DecidableEq ι] in
theorem Quiet.sharing (quiet : files.Quiet) : files.Sharing data hole inParts files := by
  have unheld : ∀ inode, ¬ files.Held inode := by
    rintro inode ⟨writer, holds⟩
    rw [quiet.idle writer] at holds
    cases holds
  refine ⟨quiet.toNamed, fun inode held => absurd held (unheld inode),
    fun _ other held => absurd held (unheld other),
    fun inode held => absurd held (unheld inode), .inl ⟨rfl, fun inode _ => ?_, ?_⟩⟩
  · exact ⟨unheld inode, rfl⟩
  · intro writer inode
    rw [quiet.idle writer]
    exact nofun

/-! ## Moving a writer -/

variable {writer : ι} {pc : WriterPc ε} {inode : Nat}

theorem held_move (same : pc.inode? = (files.writers writer).inode?) (inode : Nat) :
    (files.move writer pc).Held inode ↔ files.Held inode := by
  refine exists_congr fun other => ?_
  by_cases isWriter : other = writer
  · subst isWriter
    simp [move, same]
  · simp [move, isWriter]

/-- What is unwritten stays so, unless the writer has just written it. -/
theorem Unwritten.move (unwritten : files.Unwritten inode)
    (kept : pc.unwritten? = (files.writers writer).unwritten? ∨
      (files.writers writer).unwritten? ≠ some inode) :
    (files.move writer pc).Unwritten inode := by
  obtain ⟨holder, holds⟩ := unwritten
  refine ⟨holder, ?_⟩
  by_cases isWriter : holder = writer
  · subst isWriter
    rcases kept with alike | distinct
    · simpa [SharedReplace.move, alike] using holds
    · exact absurd holds distinct
  · simpa [SharedReplace.move, isWriter] using holds

/-- A writer that holds an inode goes on to hold it. -/
theorem inode?_move (same : (files.writers writer).inode? = some inode →
    pc.inode? = some inode) {holder : ι}
    (holds : (files.writers holder).inode? = some inode) :
    ((files.move writer pc).writers holder).inode? = some inode := by
  by_cases isWriter : holder = writer
  · subst isWriter
    simpa [SharedReplace.move] using same holds
  · simpa [SharedReplace.move, isWriter] using holds

theorem Patched.move (patched : files.Patched data hole inode)
    (same : (files.writers writer).inode? = some inode → pc.inode? = some inode) :
    (files.move writer pc).Patched data hole inode where
  short := patched.short
  attributed place item found :=
    (patched.attributed place item found).imp_right fun ⟨author, holds, writes⟩ =>
      ⟨author, inode?_move same holds, writes⟩

theorem Settled.move (settled : files.Settled data hole inParts inode)
    (same : (files.writers writer).inode? = some inode → pc.inode? = some inode)
    (kept : pc.unwritten? = (files.writers writer).unwritten? ∨
      (files.writers writer).unwritten? ≠ some inode) :
    (files.move writer pc).Settled data hole inParts inode := by
  rcases settled with ⟨author, holds, whole⟩ | ⟨empty, unwritten⟩ |
    ⟨⟨author, holds, parts⟩, patched⟩
  · exact .inl ⟨author, inode?_move same holds, whole⟩
  · exact .inr (.inl ⟨empty, unwritten.move kept⟩)
  · exact .inr (.inr ⟨⟨author, inode?_move same holds, parts⟩, patched.move same⟩)

omit [DecidableEq ι] in
theorem Settled.congr {other : SharedReplace ι β ε}
    (settled : files.Settled data hole inParts inode) (writers : other.writers = files.writers)
    (holds : other.inodes inode = files.inodes inode) :
    other.Settled data hole inParts inode := by
  rcases settled with whole | empty | ⟨parts, patched⟩
  · exact .inl (by rwa [writers, holds])
  · refine .inr (.inl ?_)
    unfold Unwritten at *
    rwa [writers, holds]
  · refine .inr (.inr ⟨by rwa [writers], ⟨?_, ?_⟩⟩)
    · rw [holds]
      exact patched.short
    · rw [holds, writers]
      exact patched.attributed

omit [DecidableEq ι] in
/-- Whatever is in a held inode, it is patched together. -/
theorem Settled.patched (lengths : ∀ writer other, (data writer).length = (data other).length)
    (settled : files.Settled data hole inParts inode) : files.Patched data hole inode := by
  rcases settled with ⟨author, holds, whole⟩ | ⟨empty, _⟩ | ⟨_, patched⟩
  · constructor
    · intro writer
      rw [whole]
      exact Nat.le_of_eq (lengths author writer)
    · intro place item found
      exact .inr ⟨author, holds, whole ▸ found⟩
  · constructor
    · intro writer
      rw [empty]
      exact Nat.zero_le _
    · intro place item found
      rw [empty] at found
      cases found
  · exact patched

theorem Untouched.move (untouched : files.Untouched initial)
    (same : pc.inode? = (files.writers writer).inode?)
    (failed : ∀ inode, pc ≠ .ended inode (.ok ())) :
    (files.move writer pc).Untouched initial := by
  obtain ⟨target, alone, unsuccessful⟩ := untouched
  refine ⟨target, fun inode isTarget => ?_, fun other inode => ?_⟩
  · rw [held_move same]
    exact alone inode isTarget
  · by_cases isWriter : other = writer
    · subst isWriter
      simpa [SharedReplace.move] using failed inode
    · simpa [SharedReplace.move, isWriter] using unsuccessful other inode

/-- A writer that keeps its inode, and does not succeed, changes nothing else. -/
theorem Sharing.move (sharing : files.Sharing data hole inParts initial)
    (same : pc.inode? = (files.writers writer).inode?)
    (alike : pc.unwritten? = (files.writers writer).unwritten?)
    (failed : ∀ inode, pc ≠ .ended inode (.ok ())) :
    (files.move writer pc).Sharing data hole inParts initial where
  toNamed := ⟨sharing.tmpUsed, sharing.targetUsed, sharing.apart⟩
  heldUsed inode held := sharing.heldUsed inode ((held_move same inode).mp held)
  tmpHeld inode other held isTmp :=
    (held_move same inode).mpr
      (sharing.tmpHeld inode other ((held_move same other).mp held) isTmp)
  settled inode held :=
    (sharing.settled inode ((held_move same inode).mp held)).move
      (fun holds => same.trans holds) (.inl alike)
  replaced := sharing.replaced.imp (fun untouched => untouched.move same failed)
    fun ⟨inode, isTarget, held⟩ => ⟨inode, isTarget, (held_move same inode).mpr held⟩

/-! ## One step -/

omit [DecidableEq ι] in
/-- The file that a writer opens is not the target. -/
theorem Named.getD_ne_target (named : files.Named) :
    files.target ≠ some (files.tmp.getD files.fresh) := by
  cases isTmp : files.tmp with
  | none =>
      intro isTarget
      have used := named.targetUsed _ isTarget
      simp at used
  | some tmp => exact named.apart tmp isTmp

theorem Named.step {label : ReplaceLabel ι ε} (named : files.Named)
    (stepped : files.step data hole missing label = some next) : next.Named := by
  obtain ⟨tmpUsed, targetUsed, apart⟩ := named
  have notTarget := Named.getD_ne_target ⟨tmpUsed, targetUsed, apart⟩
  cases label with
  | openTmp writer =>
      simp only [SharedReplace.step] at stepped
      split at stepped
      · cases stepped
        refine ⟨?_, fun inode isTarget => ?_, ?_⟩
        · rintro _ ⟨⟩
          exact Nat.lt_of_lt_of_le (Nat.lt_succ_self _) (Nat.le_max_right _ _)
        · exact Nat.lt_of_lt_of_le (targetUsed inode isTarget) (Nat.le_max_left _ _)
        · rintro _ ⟨⟩
          exact notTarget
      · cases stepped
  | write writer count =>
      simp only [SharedReplace.step] at stepped
      split at stepped
      · split at stepped
        · cases stepped
          exact ⟨tmpUsed, targetUsed, apart⟩
        · cases stepped
      · cases stepped
  | sync writer =>
      simp only [SharedReplace.step] at stepped
      split at stepped
      · cases stepped
        exact ⟨tmpUsed, targetUsed, apart⟩
      · cases stepped
  | rename writer =>
      simp only [SharedReplace.step] at stepped
      split at stepped
      · split at stepped
        · cases stepped
          exact ⟨tmpUsed, targetUsed, apart⟩
        · rename_i tmp isTmp
          cases stepped
          refine ⟨nofun, ?_, nofun⟩
          rintro _ ⟨⟩
          exact tmpUsed tmp isTmp
      · cases stepped
  | fail writer error =>
      simp only [SharedReplace.step] at stepped
      split at stepped
      all_goals
        cases stepped
        try exact ⟨tmpUsed, targetUsed, apart⟩

theorem Sharing.openTmp (sharing : files.Sharing data hole inParts initial)
    (stepped : files.step data hole missing (.openTmp writer) = some next) :
    next.Sharing data hole inParts initial := by
  have named := sharing.toNamed.step stepped
  cases isIdle : files.writers writer with
  | idle =>
      simp only [step, isIdle, Option.some.injEq] at stepped
      generalize isInode : files.tmp.getD files.fresh = inode at stepped
      have notTarget : files.target ≠ some inode := isInode ▸ sharing.getD_ne_target
      have opens : (next.writers writer).unwritten? = some inode := by
        rw [← stepped]
        simp [SharedReplace.move, WriterPc.unwritten?]
      have held : ∀ other, next.Held other ↔ files.Held other ∨ other = inode := by
        intro other
        rw [← stepped]
        constructor
        · rintro ⟨holder, holds⟩
          by_cases isWriter : holder = writer
          · subst isWriter
            simp only [SharedReplace.move, Function.update_self, WriterPc.inode?,
              Option.some.injEq] at holds
            exact .inr holds.symm
          · simp only [SharedReplace.move, Function.update_of_ne isWriter] at holds
            exact .inl ⟨holder, holds⟩
        · rintro (⟨holder, holds⟩ | rfl)
          · have isOther : holder ≠ writer := by
              rintro rfl
              rw [isIdle] at holds
              cases holds
            exact ⟨holder, by simpa [SharedReplace.move, isOther] using holds⟩
          · exact ⟨writer, by simp [SharedReplace.move, WriterPc.inode?]⟩
      subst stepped
      refine ⟨named, ?_, ?_, ?_, ?_⟩
      · intro other isHeld
        rcases (held other).mp isHeld with before | rfl
        · exact Nat.lt_of_lt_of_le (sharing.heldUsed other before) (Nat.le_max_left _ _)
        · exact Nat.lt_of_lt_of_le (Nat.lt_succ_self _) (Nat.le_max_right _ _)
      · rintro other _ _ isTmp
        cases isTmp
        exact (held inode).mpr (.inr rfl)
      · intro other isHeld
        by_cases same : other = inode
        · subst same
          exact .inr (.inl ⟨by simp, writer, opens⟩)
        · have before := ((held other).mp isHeld).resolve_right same
          have moved : (files.move writer (.opened inode 0)).Settled data hole inParts other :=
            (sharing.settled other before).move (by simp [isIdle, WriterPc.inode?])
              (.inr (by simp [isIdle, WriterPc.unwritten?]))
          exact moved.congr rfl (by simp [same, SharedReplace.move])
      · rcases sharing.replaced with
          ⟨target, alone, unsuccessful⟩ | ⟨other, isTarget, before⟩
        · refine .inl ⟨target, fun other isTarget => ?_, fun other held => ?_⟩
          · obtain ⟨unheld, same⟩ := alone other isTarget
            have distinct : other ≠ inode := fun isInode => notTarget (isInode ▸ isTarget)
            refine ⟨fun isHeld => ?_, by simpa [distinct] using same⟩
            exact ((held other).mp isHeld).elim unheld distinct
          · by_cases isWriter : other = writer
            · subst isWriter
              simp [SharedReplace.move]
            · simpa [SharedReplace.move, isWriter] using unsuccessful other held
        · exact .inr ⟨other, isTarget, (held other).mpr (.inl before)⟩
  | _ => simp [step, isIdle] at stepped

/-- A writer changes what its open file holds, to something that is settled. -/
theorem Sharing.refill {progress : Nat} {content : List β}
    (sharing : files.Sharing data hole inParts initial)
    (isOpened : files.writers writer = .opened inode progress) (same : pc.inode? = some inode)
    (failed : ∀ inode, pc ≠ .ended inode (.ok ()))
    (settled : Settled data hole inParts { files.move writer pc with
      inodes := Function.update files.inodes inode content } inode) :
    Sharing data hole inParts { files.move writer pc with
      inodes := Function.update files.inodes inode content } initial := by
  have alike : pc.inode? = (files.writers writer).inode? := by
    rw [isOpened, same]
    rfl
  have isHeld : files.Held inode := ⟨writer, by rw [isOpened]; rfl⟩
  have moved := held_move alike
  refine ⟨⟨sharing.tmpUsed, sharing.targetUsed, sharing.apart⟩,
    fun other held => sharing.heldUsed other ((moved other).mp held),
    fun other holder held isTmp =>
      (moved other).mpr (sharing.tmpHeld other holder ((moved holder).mp held) isTmp),
    fun other held => ?_, ?_⟩
  · by_cases isInode : other = inode
    · exact isInode ▸ settled
    · have before : files.Settled data hole inParts other :=
        sharing.settled other ((moved other).mp held)
      have apart : (files.writers writer).unwritten? ≠ some other := by
        rw [isOpened]
        exact fun equal => isInode (Option.some.inj equal).symm
      have kept := before.move (fun holds => alike.trans holds) (.inr apart)
      exact kept.congr rfl (by simp [isInode, SharedReplace.move])
  · rcases sharing.replaced with untouched | ⟨other, isTarget, held⟩
    · obtain ⟨target, alone, unsuccessful⟩ := untouched.move alike failed
      refine .inl ⟨target, fun other isTarget => ?_, unsuccessful⟩
      obtain ⟨unheld, kept⟩ := alone other isTarget
      have distinct : other ≠ inode := fun isInode =>
        unheld ((moved other).mpr (isInode ▸ isHeld))
      exact ⟨unheld, by simpa [distinct, SharedReplace.move] using kept⟩
    · exact .inr ⟨other, isTarget, (moved other).mpr held⟩

/-- A write leaves a patched file patched. -/
theorem Patched.writing {count progress : Nat} (patched : files.Patched data hole inode)
    (lengths : ∀ writer other, (data writer).length = (data other).length)
    (within : progress + count ≤ (data writer).length)
    (same : pc.inode? = some inode) :
    Patched data hole { files.move writer pc with
      inodes := Function.update files.inodes inode
        (files.writing data hole writer count inode progress) } inode := by
  constructor
  · intro other
    have before := patched.short other
    have alike := lengths writer other
    simp only [Function.update_self, SharedReplace.writing, length_overlay, List.length_take,
      List.length_drop]
    omega
  · intro place item found
    simp only [Function.update_self] at found
    rcases overlay_cases found with before | filled | ⟨behind, piece⟩
    · refine (patched.attributed place item before).imp_right fun ⟨author, holds, writes⟩ => ?_
      exact ⟨author, inode?_move (fun _ => same) holds, writes⟩
    · exact .inl filled
    · refine .inr ⟨writer, by simpa [SharedReplace.move] using same, ?_⟩
      rw [List.getElem?_take] at piece
      split at piece
      · rwa [List.getElem?_drop, Nat.add_sub_cancel' behind] at piece
      · cases piece

/-- A write of all the data settles the file whatever is in it, and a write of a part leaves
it patched together. -/
theorem Sharing.write {count : Nat}
    (lengths : ∀ writer other, (data writer).length = (data other).length)
    (parts : count < (data writer).length → inParts writer)
    (sharing : files.Sharing data hole inParts initial)
    (stepped : files.step data hole missing (.write writer count) = some next) :
    next.Sharing data hole inParts initial := by
  cases isOpened : files.writers writer with
  | opened inode progress =>
      simp only [step, isOpened] at stepped
      obtain ⟨⟨_, within⟩, stepped⟩ := Option.ite_none_right_eq_some.mp stepped
      cases stepped
      have isHeld : files.Held inode := ⟨writer, by rw [isOpened]; rfl⟩
      have patched := (sharing.settled inode isHeld).patched lengths
      generalize isPc : (if progress + count = (data writer).length then
        WriterPc.written inode else .opened inode (progress + count) : WriterPc ε) = pc
      have same : pc.inode? = some inode := by
        rw [← isPc]
        split <;> rfl
      have failed : ∀ inode, pc ≠ .ended inode (.ok ()) := by
        rw [← isPc]
        split <;> exact nofun
      have holds : ((files.move writer pc).writers writer).inode? = some inode := by
        simpa [SharedReplace.move] using same
      refine sharing.refill isOpened same failed ?_
      by_cases isPart : count < (data writer).length
      · exact .inr (.inr ⟨⟨writer, holds, parts isPart⟩,
          patched.writing lengths within same⟩)
      · have atStart : progress = 0 := by omega
        have all : ((data writer).drop 0).take count = data writer := by
          rw [List.drop_zero, List.take_of_length_le (Nat.not_lt.mp isPart)]
        refine .inl ⟨writer, holds, ?_⟩
        simp only [Function.update_self, SharedReplace.writing]
        rw [atStart, all, overlay_whole (patched.short writer)]
  | _ => simp [step, isOpened] at stepped

theorem Sharing.fail {error : ε} (sharing : files.Sharing data hole inParts initial)
    (stepped : files.step data hole missing (.fail writer error) = some next) :
    next.Sharing data hole inParts initial := by
  cases place : files.writers writer with
  | abandoned | ended => simp [step, place] at stepped
  | idle | opened | written | synced =>
      simp only [step, place, Option.some.injEq] at stepped
      subst stepped
      exact sharing.move (by simp [place, WriterPc.inode?])
        (by simp [place, WriterPc.unwritten?]) (by simp)

theorem Sharing.rename (sharing : files.Sharing data hole inParts initial)
    (stepped : files.step data hole missing (.rename writer) = some next) :
    next.Sharing data hole inParts initial := by
  have named := sharing.toNamed.step stepped
  cases isSynced : files.writers writer with
  | synced inode =>
      cases isTmp : files.tmp with
      | none =>
          simp only [step, isSynced, isTmp, Option.some.injEq] at stepped
          subst stepped
          exact sharing.move (by simp [isSynced, WriterPc.inode?])
            (by simp [isSynced, WriterPc.unwritten?]) (by simp)
      | some tmp =>
          simp only [step, isSynced, isTmp, Option.some.injEq] at stepped
          subst stepped
          have same : (WriterPc.ended inode (.ok ()) : WriterPc ε).inode? =
              (files.writers writer).inode? := by
            rw [isSynced]
            rfl
          have moved := held_move same
          have isHeld : files.Held inode := ⟨writer, by rw [isSynced]; rfl⟩
          refine ⟨named, fun other held => sharing.heldUsed other ((moved other).mp held),
            nofun, fun other held => ?_, .inr ⟨tmp, rfl, ?_⟩⟩
          · have before := sharing.settled other ((moved other).mp held)
            exact (before.move (fun holds => same.trans holds)
              (.inl (by simp [isSynced, WriterPc.unwritten?]))).congr rfl rfl
          · exact (moved tmp).mpr (sharing.tmpHeld tmp inode isHeld isTmp)
  | _ => simp [step, isSynced] at stepped

theorem Sharing.step {label : ReplaceLabel ι ε}
    (lengths : ∀ writer other, (data writer).length = (data other).length)
    (parts : ∀ writer count, label = .write writer count → count < (data writer).length →
      inParts writer)
    (sharing : files.Sharing data hole inParts initial)
    (stepped : files.step data hole missing label = some next) :
    next.Sharing data hole inParts initial := by
  cases label with
  | openTmp writer => exact sharing.openTmp stepped
  | write writer count => exact sharing.write lengths (parts writer count rfl) stepped
  | rename writer => exact sharing.rename stepped
  | fail writer error => exact sharing.fail stepped
  | sync writer =>
      cases place : files.writers writer with
      | written inode =>
          simp only [SharedReplace.step, place, Option.some.injEq] at stepped
          subst stepped
          exact sharing.move (by simp [place, WriterPc.inode?])
            (by simp [place, WriterPc.unwritten?]) (by simp)
      | _ => simp [SharedReplace.step, place] at stepped

/-- In every interleaving the file is as it was, with no writer successful, or it has been
replaced: it holds the data of one of the writers, whole, or it is empty, and some writer
has opened it and not written it, or a writer of it has written its data in parts, and it is
patched together from what the writers write. -/
theorem run_cases (lengths : ∀ writer other, (data writer).length = (data other).length)
    (quiet : initial.Quiet) {labels : List (ReplaceLabel ι ε)}
    (run : exec (step data hole missing) initial labels = some files) :
    files.Untouched initial ∨
      ∃ inode, files.target = some inode ∧
        files.Settled data hole (WritesParts data labels) inode := by
  have preserved : ∀ (state : SharedReplace ι β ε) label (next : SharedReplace ι β ε),
      state.Sharing data hole (WritesParts data labels) initial → label ∈ labels →
        state.step data hole missing label = some next →
          next.Sharing data hole (WritesParts data labels) initial := by
    intro _ label _ sharing member stepped
    refine sharing.step lengths ?_ stepped
    rintro writer count rfl isPart
    exact ⟨count, isPart, member⟩
  have along : Along (step data hole missing) (fun _ label => label ∈ labels) initial labels :=
    along_of_forall fun _ member => member
  have throughout := throughout_of_along preserved quiet.sharing along
  have sharing := final_of_throughout throughout run
  exact sharing.replaced.imp_right fun ⟨inode, isTarget, held⟩ =>
    ⟨inode, isTarget, sharing.settled inode held⟩

end SharedReplace

end Kmwarp.Foundation
