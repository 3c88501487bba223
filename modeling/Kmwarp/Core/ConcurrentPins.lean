import Kmwarp.Core.Pairing
import Kmwarp.Core.PinFile
import Kmwarp.Foundation.SharedReplace

/-!
# Concurrent stores of a pin

Every connection of the server that is in pairing stores its peer's pin on its own, and all
of them through the same temporary file.
-/

namespace Kmwarp.Tls.PinStore

open Foundation Wire

variable {ι : Type} [DecidableEq ι]

/-- What a store writes into the temporary file. -/
def dataOf (pins : ι → PinHash) (connection : ι) : List UInt8 :=
  asBytes (contents (pins connection))

/-- The characters of it. -/
def charsOf (pins : ι → PinHash) (connection : ι) : List Char :=
  hexEncode (pins connection).toList ++ ['\n']

/-- What the two names of the directory lead to. -/
def filesOf (path : String) (shared : SharedReplace ι UInt8 IoError) : Files String UInt8 :=
  fun name =>
    if name = path then shared.target.map shared.inodes
    else if name = tmpOf path then shared.tmp.map shared.inodes
    else none

/-! ## All pins are written in files of one length -/

theorem hexDigit_small {value : Nat} (bound : value < 16) : (hexDigit value).utf8Size = 1 := by
  revert value
  decide

theorem utf8Size_of_mem_hexEncode {bytes : List UInt8} {c : Char} (member : c ∈ hexEncode bytes) :
    c.utf8Size = 1 := by
  obtain ⟨byte, _, digits⟩ := List.mem_flatMap.mp member
  have high : byte.toNat / 16 < 16 := Nat.div_lt_of_lt_mul byte.toNat_lt
  have low : byte.toNat % 16 < 16 := Nat.mod_lt _ (by decide)
  simp only [List.mem_cons, List.not_mem_nil, or_false] at digits
  rcases digits with rfl | rfl
  · exact hexDigit_small high
  · exact hexDigit_small low

theorem length_hexEncode (bytes : List UInt8) : (hexEncode bytes).length = 2 * bytes.length := by
  induction bytes with
  | nil => rfl
  | cons byte bytes ih =>
      have step : (hexEncode (byte :: bytes)).length = (hexEncode bytes).length + 2 := rfl
      rw [step, ih, List.length_cons, Nat.mul_succ]

theorem length_utf8 {text : List Char} (small : ∀ c ∈ text, c.utf8Size = 1) :
    (text.flatMap String.utf8EncodeChar).length = text.length := by
  induction text with
  | nil => rfl
  | cons c text ih =>
      obtain ⟨here, later⟩ := List.forall_mem_cons.mp small
      rw [List.flatMap_cons, List.length_append, String.length_utf8EncodeChar, here, ih later,
        List.length_cons, Nat.add_comm]

omit [DecidableEq ι] in
theorem dataOf_eq (pins : ι → PinHash) (connection : ι) :
    dataOf pins connection = (charsOf pins connection).flatMap String.utf8EncodeChar := by
  rw [dataOf, contents, Pairing.asBytes_ofList]
  rfl

omit [DecidableEq ι] in
theorem small_charsOf (pins : ι → PinHash) (connection : ι) :
    ∀ c ∈ charsOf pins connection, c.utf8Size = 1 := by
  intro c member
  rcases List.mem_append.mp member with digit | newline
  · exact utf8Size_of_mem_hexEncode digit
  · rw [List.mem_singleton.mp newline]
    rfl

omit [DecidableEq ι] in
theorem length_digits (pins : ι → PinHash) (connection : ι) :
    (hexEncode (pins connection).toList).length = 2 * pinHashLen := by
  rw [length_hexEncode, Vector.length_toList]
  rfl

omit [DecidableEq ι] in
theorem length_dataOf (pins : ι → PinHash) (connection : ι) :
    (dataOf pins connection).length = 65 := by
  rw [dataOf_eq, length_utf8 (small_charsOf pins connection), charsOf, List.length_append,
    length_digits]
  rfl

/-! ## Files patched together -/

/-- Every character is the one that some text has in its place, or a NUL that fills it. -/
def Patchwork (texts : ι → List Char) (authors : ι → Prop) (chars : List Char) : Prop :=
  ∀ (place : Nat) (c : Char), chars[place]? = some c →
    c = Char.ofNat 0 ∨ ∃ author, authors author ∧ (texts author)[place]? = some c

/-- The byte in a place of a text with small characters is that of the character there. -/
theorem exists_char_of_byte {text : List Char} (small : ∀ c ∈ text, c.utf8Size = 1)
    {place : Nat} {byte : UInt8}
    (found : (text.flatMap String.utf8EncodeChar)[place]? = some byte) :
    ∃ c, text[place]? = some c ∧ String.utf8EncodeChar c = [byte] := by
  induction text generalizing place with
  | nil => cases found
  | cons c text ih =>
      obtain ⟨here, later⟩ := List.forall_mem_cons.mp small
      obtain ⟨first, single⟩ : ∃ first, String.utf8EncodeChar c = [first] := by
        rw [← List.length_eq_one_iff, String.length_utf8EncodeChar, here]
      rw [List.flatMap_cons, single, List.singleton_append] at found
      cases place with
      | zero =>
          cases found
          exact ⟨c, rfl, single⟩
      | succ place => exact ih later found

omit [DecidableEq ι] in
theorem Patchwork.small {pins : ι → PinHash} {authors : ι → Prop} {chars : List Char}
    (patchwork : Patchwork (charsOf pins) authors chars) : ∀ c ∈ chars, c.utf8Size = 1 := by
  intro c member
  obtain ⟨place, found⟩ := List.getElem?_of_mem member
  rcases patchwork place c found with rfl | ⟨author, _, inText⟩
  · rfl
  · exact small_charsOf pins author c (List.mem_of_getElem? inText)

omit [DecidableEq ι] in
/-- Bytes that are zero or those of some store are a text patched together from the
stores'. -/
theorem exists_patchwork {pins : ι → PinHash} {authors : ι → Prop} {bytes : List UInt8}
    (patched : ∀ (place : Nat) (byte : UInt8), bytes[place]? = some byte →
      byte = 0 ∨ ∃ author, authors author ∧ (dataOf pins author)[place]? = some byte) :
    ∃ chars, Patchwork (charsOf pins) authors chars ∧
      bytes = chars.flatMap String.utf8EncodeChar := by
  induction bytes using List.reverseRecOn with
  | nil => exact ⟨[], nofun, rfl⟩
  | append_singleton bytes byte ih =>
      obtain ⟨chars, patchwork, encoded⟩ := ih fun place early found => by
        have inside := (List.getElem?_eq_some_iff.mp found).1
        exact patched place early (by rwa [List.getElem?_append_left inside])
      have last : ∃ c, String.utf8EncodeChar c = [byte] ∧
          (c = Char.ofNat 0 ∨
            ∃ author, authors author ∧ (charsOf pins author)[bytes.length]? = some c) := by
        rcases patched bytes.length byte (by simp) with rfl | ⟨author, isAuthor, written⟩
        · exact ⟨Char.ofNat 0, rfl, .inl rfl⟩
        · rw [dataOf_eq] at written
          obtain ⟨c, inPlace, single⟩ :=
            exists_char_of_byte (small_charsOf pins author) written
          exact ⟨c, single, .inr ⟨author, isAuthor, inPlace⟩⟩
      obtain ⟨c, single, fromText⟩ := last
      have lengths : chars.length = bytes.length := by
        rw [encoded, length_utf8 patchwork.small]
      refine ⟨chars ++ [c], fun place other found => ?_, ?_⟩
      · by_cases early : place < chars.length
        · rw [List.getElem?_append_left early] at found
          exact patchwork place other found
        · rw [List.getElem?_append_right (Nat.not_lt.mp early),
            List.getElem?_singleton] at found
          split at found
          · rename_i isLast
            cases found
            have same : place = bytes.length := by omega
            exact same ▸ fromText
          · cases found
      · rw [List.flatMap_append, ← encoded, List.flatMap_singleton, single]

/-- What loads as a pin has no NUL in it. -/
theorem noNul_of_load {chars : List Char} {pin : PinHash}
    (loads : load (.text (String.ofList chars)) = .ok (some pin)) : Char.ofNat 0 ∉ chars := by
  intro member
  obtain ⟨_, ⟨⟩, _, hexDigits, _⟩ := load_eq_some_iff.mp loads
  rw [String.toList_ofList] at hexDigits
  have seen : Char.ofNat 0 ∈ visible (trim chars) := by
    rw [visible_trim]
    exact mem_visible member (by decide)
  exact absurd (hexDigits _ (List.mem_of_mem_filter seen)) (by decide)

omit [DecidableEq ι] in
theorem Patchwork.attributed {texts : ι → List Char} {authors : ι → Prop} {chars : List Char}
    (patchwork : Patchwork texts authors chars) (noNul : Char.ofNat 0 ∉ chars) {place : Nat}
    {c : Char} (found : chars[place]? = some c) :
    ∃ author, authors author ∧ (texts author)[place]? = some c :=
  (patchwork place c found).resolve_left fun isNul =>
    noNul (isNul ▸ List.mem_of_getElem? found)

omit [DecidableEq ι] in
/-- The digits of a patchwork are in front, and only a line end is behind them. -/
theorem Patchwork.visible_eq {pins : ι → PinHash} {authors : ι → Prop} {chars : List Char}
    (patchwork : Patchwork (charsOf pins) authors chars) (noNul : Char.ofNat 0 ∉ chars) :
    (∀ c ∈ chars.take (2 * pinHashLen), ∃ value < 16, c = hexDigit value) ∧
      visible chars = chars.take (2 * pinHashLen) := by
  have digits : ∀ c ∈ chars.take (2 * pinHashLen), ∃ value < 16, c = hexDigit value := by
    intro c member
    obtain ⟨place, found⟩ := List.getElem?_of_mem member
    rw [List.getElem?_take] at found
    split at found
    · rename_i inFront
      obtain ⟨author, _, inText⟩ := patchwork.attributed noNul found
      rw [charsOf, List.getElem?_append_left (by rwa [length_digits])] at inText
      obtain ⟨byte, _, isDigit⟩ := List.mem_flatMap.mp (List.mem_of_getElem? inText)
      have high : byte.toNat / 16 < 16 := Nat.div_lt_of_lt_mul byte.toNat_lt
      have low : byte.toNat % 16 < 16 := Nat.mod_lt _ (by decide)
      simp only [List.mem_cons, List.not_mem_nil, or_false] at isDigit
      exact isDigit.elim (fun same => ⟨_, high, same⟩) fun same => ⟨_, low, same⟩
    · cases found
  have lineEnds : ∀ c ∈ chars.drop (2 * pinHashLen), isWhitespace c = true := by
    intro c member
    obtain ⟨place, found⟩ := List.getElem?_of_mem member
    rw [List.getElem?_drop] at found
    obtain ⟨author, _, inText⟩ := patchwork.attributed noNul found
    rw [charsOf, List.getElem?_append_right (by rw [length_digits]; exact Nat.le_add_right _ _)]
      at inText
    rw [List.mem_singleton.mp (List.mem_of_getElem? inText)]
    rfl
  refine ⟨digits, ?_⟩
  have split : visible chars =
      visible (chars.take (2 * pinHashLen)) ++ visible (chars.drop (2 * pinHashLen)) := by
    rw [visible, visible, visible, ← List.filter_append, List.take_append_drop]
  have front : visible (chars.take (2 * pinHashLen)) = chars.take (2 * pinHashLen) := by
    rw [visible, List.filter_eq_self]
    intro c member
    obtain ⟨value, bound, rfl⟩ := digits c member
    rw [not_isWhitespace_hexDigit bound]
    rfl
  have behind : visible (chars.drop (2 * pinHashLen)) = [] := by
    rw [visible, List.filter_eq_nil_iff]
    intro c member
    simp [lineEnds c member]
  rw [split, front, behind, List.append_nil]

omit [DecidableEq ι] in
/-- A pin loaded from a patchwork has each of its digits from one of the stores' pins. -/
theorem Patchwork.digit {pins : ι → PinHash} {authors : ι → Prop} {chars : List Char}
    {pin : PinHash} (patchwork : Patchwork (charsOf pins) authors chars)
    (loads : load (.text (String.ofList chars)) = .ok (some pin)) {place : Nat}
    (inside : place < 2 * pinHashLen) :
    ∃ author, authors author ∧
      (hexEncode pin.toList)[place]? = (hexEncode (pins author).toList)[place]? := by
  obtain ⟨_, ⟨⟩, length, hexDigits, decodes⟩ := load_eq_some_iff.mp loads
  rw [String.toList_ofList] at length hexDigits decodes
  have noNul := noNul_of_load loads
  obtain ⟨lower, front⟩ := patchwork.visible_eq noNul
  have trimmed : trim chars = chars.take (2 * pinHashLen) := by
    rw [← front, ← visible_trim, visible, List.filter_eq_self.mpr]
    intro c member
    cases space : isWhitespace c with
    | false => rfl
    | true => exact absurd (hexDigits c member) (by simp [hexValue_of_isWhitespace space])
  rw [trimmed] at length decodes
  have encoded := hexEncode_of_hexDecode lower decodes
  have long : place < chars.length := by
    rw [List.length_take] at length
    omega
  obtain ⟨author, isAuthor, inText⟩ :=
    patchwork.attributed noNul (List.getElem?_eq_getElem long)
  refine ⟨author, isAuthor, ?_⟩
  rw [charsOf, List.getElem?_append_left (by rwa [length_digits])] at inText
  rw [encoded, List.getElem?_take, if_pos inside, List.getElem?_eq_getElem long, inText]

/-! ## Every interleaving -/

variable {path : String} {pins : ι → PinHash} {initial shared : SharedReplace ι UInt8 IoError}

omit [DecidableEq ι] in
theorem loadFrom_of_untouched (untouched : shared.Untouched initial) :
    loadFrom (filesOf path shared) path = loadFrom (filesOf path initial) path := by
  obtain ⟨target, alone, _⟩ := untouched
  refine congrArg load (readToString_congr ?_)
  simp only [filesOf, if_true, ← target]
  cases isTarget : shared.target with
  | none => rfl
  | some inode => simp [(alone inode isTarget).2]

omit [DecidableEq ι] in
theorem loadFrom_of_target {inode : Nat} {pin : PinHash} (isTarget : shared.target = some inode)
    (holds : shared.inodes inode = asBytes (contents pin)) :
    loadFrom (filesOf path shared) path = .ok (some pin) := by
  have file : filesOf path shared path = some (asBytes (contents pin)) := by
    simp [filesOf, isTarget, holds]
  rw [loadFrom, readToString_contents file, load_contents]

/-- An empty pin file is refused as corrupt. -/
theorem loadFrom_of_empty {files : Files String UInt8} (empty : files path = some []) :
    loadFrom files path = .error (.pinFileCorrupt "decoded to 0 bytes, expected 32") := by
  rw [loadFrom, readToString, empty]
  rfl

omit [DecidableEq ι] in
/-- What a file patched together from the stores' loads as. -/
theorem loadFrom_of_patched {inode : Nat} (isTarget : shared.target = some inode)
    (patched : shared.Patched (dataOf pins) 0 inode) :
    (∃ reason, loadFrom (filesOf path shared) path = .error (.pinFileCorrupt reason)) ∨
      ∃ pin, loadFrom (filesOf path shared) path = .ok (some pin) ∧
        ∀ place < 2 * pinHashLen, ∃ other, (shared.writers other).inode? = some inode ∧
          (hexEncode pin.toList)[place]? = (hexEncode (pins other).toList)[place]? := by
  obtain ⟨chars, patchwork, encoded⟩ := exists_patchwork patched.attributed
  have read : readToString (filesOf path shared) path = .text (String.ofList chars) := by
    have file : filesOf path shared path = some (asBytes (String.ofList chars)) := by
      simp only [filesOf, if_true, isTarget, Option.map_some, encoded, Pairing.asBytes_ofList]
    rw [readToString, file]
    simp only [fromUTF8?_asBytes]
  rw [loadFrom, read]
  cases loads : load (.text (String.ofList chars)) with
  | ok pinned =>
      cases pinned with
      | none => cases load_eq_none_iff.mp loads
      | some pin => exact .inr ⟨pin, rfl, fun place inside => patchwork.digit loads inside⟩
  | error error =>
      refine .inl ?_
      rw [load] at loads
      split at loads
      · exact ⟨_, loads.symm⟩
      · split at loads
        · cases loads
        · exact ⟨_, loads.symm⟩

/-- What becomes of the pin file in every interleaving of any number of stores, with
failures anywhere.  The pin loads as before, and then no store has succeeded; or as the pin
of one of the stores; or the file is empty, and then some store has opened it and not
written it; or some store of it has written its data in parts, of which it may have come to
write only some.  Then the file is refused as corrupt, or each digit of the pin it loads as
is that of one of the stores' pins. -/
theorem concurrent_stores_cases (quiet : initial.Quiet)
    {labels : List (ReplaceLabel ι IoError)}
    (run : exec (SharedReplace.step (dataOf pins) 0 noSuchFile) initial labels =
      some shared) :
    let loaded := loadFrom (filesOf path shared) path
    (loaded = loadFrom (filesOf path initial) path ∧
        ∀ connection inode, shared.writers connection ≠ .ended inode (.ok ())) ∨
      ∃ inode, shared.target = some inode ∧
        ((∃ connection, (shared.writers connection).inode? = some inode ∧
            loaded = .ok (some (pins connection))) ∨
          (loaded = .error (.pinFileCorrupt "decoded to 0 bytes, expected 32") ∧
            ∃ connection, (shared.writers connection).unwritten? = some inode) ∨
          (∃ connection, (shared.writers connection).inode? = some inode ∧
              SharedReplace.WritesParts (dataOf pins) labels connection) ∧
            ((∃ reason, loaded = .error (.pinFileCorrupt reason)) ∨
              ∃ pin, loaded = .ok (some pin) ∧
                ∀ place < 2 * pinHashLen, ∃ other,
                  (shared.writers other).inode? = some inode ∧
                    (hexEncode pin.toList)[place]? =
                      (hexEncode (pins other).toList)[place]?)) := by
  intro loaded
  have lengths : ∀ connection other,
      (dataOf pins connection).length = (dataOf pins other).length := fun connection other => by
    rw [length_dataOf, length_dataOf]
  rcases SharedReplace.run_cases lengths quiet run with untouched | ⟨inode, isTarget, settled⟩
  · exact .inl ⟨loadFrom_of_untouched untouched, untouched.2.2⟩
  · refine .inr ⟨inode, isTarget, ?_⟩
    rcases settled with ⟨connection, holds, whole⟩ | ⟨empty, unwritten⟩ | ⟨inParts, patched⟩
    · exact .inl ⟨connection, holds, loadFrom_of_target isTarget whole⟩
    · refine .inr (.inl ⟨loadFrom_of_empty ?_, unwritten⟩)
      simp [filesOf, isTarget, empty]
    · exact .inr (.inr ⟨inParts, loadFrom_of_patched isTarget patched⟩)

/-- Nothing on disk, and two connections. -/
def firstPairing : SharedReplace Bool UInt8 IoError where
  inodes _ := []
  fresh := 0
  tmp := none
  target := none
  writers _ := .idle

/-- The second connection opens the temporary file between the first one's write and
rename, and finds it gone when it renames. -/
def overlappingStores : List (ReplaceLabel Bool IoError) :=
  [.openTmp false, .write false 65, .sync false, .openTmp true, .rename false, .write true 65,
    .sync true, .rename true]

def twoPins : Bool → PinHash
  | false => .replicate 32 1
  | true => .replicate 32 2

/-- The store of the second connection fails, but a pin is there. -/
theorem concurrent_stores_cases_overlapping : ∃ shared,
    exec (SharedReplace.step (dataOf twoPins) 0 noSuchFile) firstPairing overlappingStores =
        some shared ∧
      shared.writers true = .ended 0 (.error noSuchFile) ∧
      ∃ connection,
        loadFrom (filesOf "peer.pin" shared) "peer.pin" = .ok (some (twoPins connection)) := by
  have ended : (exec (SharedReplace.step (dataOf twoPins) 0 noSuchFile) firstPairing
      overlappingStores).map (fun shared => (shared.writers false, shared.writers true)) =
        some (.ended 0 (.ok ()), .ended 0 (.error noSuchFile)) := rfl
  obtain ⟨shared, run, results⟩ := Option.map_eq_some_iff.mp ended
  obtain ⟨first, second⟩ := Prod.mk.inj results
  have quiet : firstPairing.Quiet := ⟨⟨nofun, nofun, nofun⟩, fun _ => rfl⟩
  refine ⟨shared, run, second, ?_⟩
  have unwritten (connection : Bool) : (shared.writers connection).unwritten? = none := by
    cases connection
    · rw [first]
      rfl
    · rw [second]
      rfl
  rcases concurrent_stores_cases quiet run with ⟨_, none⟩ | ⟨inode, _, holds⟩
  · exact absurd first (none false 0)
  · rcases holds with ⟨connection, _, loaded⟩ | ⟨_, connection, isUnwritten⟩ |
      ⟨⟨connection, _, count, isPart, isWritten⟩, _⟩
    · exact ⟨connection, loaded⟩
    · rw [unwritten] at isUnwritten
      cases isUnwritten
    · rw [length_dataOf] at isPart
      have whole : count = 65 := by
        simp only [overlappingStores, List.mem_cons, ReplaceLabel.write.injEq,
          List.not_mem_nil, reduceCtorEq, or_false, false_or] at isWritten
        rcases isWritten with ⟨_, whole⟩ | ⟨_, whole⟩
        · exact whole
        · exact whole
      omega

end Kmwarp.Tls.PinStore
