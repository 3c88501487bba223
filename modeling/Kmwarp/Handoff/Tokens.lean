import Kmwarp.Core.Edge

/-!
# Control as a token

The abstract view of a handoff: the edge machine's state, the `TakeControl`s
and `ReleaseControl`s under way, and the client's flag.  Control should be in
exactly one place while the peer is driven, and in none of them while the Mac
drives itself.
-/

namespace Kmwarp

@[ext] structure Tokens where
  state : State
  takes : Nat
  active : Bool
  releases : Nat
deriving DecidableEq

namespace Tokens

def total (tokens : Tokens) : Nat :=
  tokens.takes + tokens.active.toNat + tokens.releases

/-- Control is nowhere twice, and away only while the machine is remote. -/
structure Once (tokens : Tokens) : Prop where
  atMostOne : tokens.total ≤ 1
  onlyRemote : 0 < tokens.total → tokens.state = .remoteActive

/-- Control is away exactly once while the machine is remote. -/
structure Exact (tokens : Tokens) : Prop where
  ofLocal : tokens.state = .localActive → tokens.total = 0
  ofRemote : tokens.state = .remoteActive → tokens.total = 1

/-- The tokens with the client's flag taken for cleared. -/
def deactivated (tokens : Tokens) : Tokens :=
  { tokens with active := false }

/-- An active client turns its flag into a release. -/
theorem Exact.release {tokens : Tokens} (exactly : tokens.Exact)
    (wasActive : tokens.active = true) :
    Exact { tokens with active := false, releases := tokens.releases + 1 } := by
  obtain ⟨ofLocal, ofRemote⟩ := exactly
  have sameTotal : total { tokens with active := false, releases := tokens.releases + 1 } =
      tokens.total := by
    simp only [total, wasActive, Bool.toNat_false, Bool.toNat_true]
    omega
  constructor
  · intro isLocal
    rw [sameTotal]
    exact ofLocal isLocal
  · intro isRemote
    rw [sameTotal]
    exact ofRemote isRemote

end Tokens

/-- What a step does to the token in its way. -/
inductive Passage where
  | kept
  | delivered
  | lost
deriving DecidableEq

/-- How a step outside the client's watcher moves control. -/
inductive TokenMove (tokens : Tokens) : Passage → Tokens → Prop where
  | keep : TokenMove tokens .kept tokens
  | take (wasLocal : tokens.state = .localActive) :
      TokenMove tokens .kept
        { tokens with state := .remoteActive, takes := tokens.takes + 1 }
  | takeDropped (wasLocal : tokens.state = .localActive) :
      TokenMove tokens .lost { tokens with state := .remoteActive }
  | deliver {rest : Nat} (delivered : tokens.takes = rest + 1) :
      TokenMove tokens .delivered { tokens with takes := rest, active := true }
  | return {rest : Nat} (returned : tokens.releases = rest + 1)
      (wasRemote : tokens.state = .remoteActive) :
      TokenMove tokens .kept { tokens with state := .localActive, releases := rest }
  | ignoreRelease {rest : Nat} (ignored : tokens.releases = rest + 1)
      (wasLocal : tokens.state = .localActive) :
      TokenMove tokens .kept { tokens with releases := rest }
  | releaseDropped {rest : Nat} (dropped : tokens.releases = rest + 1) :
      TokenMove tokens .lost { tokens with releases := rest }

namespace TokenMove

variable {tokens next : Tokens} {passage : Passage}

/-- No move duplicates control, whether it loses a token or not. -/
theorem once (move : TokenMove tokens passage next) (once : tokens.Once) :
    next.Once := by
  obtain ⟨atMostOne, onlyRemote⟩ := once
  simp only [Tokens.total] at atMostOne onlyRemote
  cases move with
  | keep => exact ⟨atMostOne, onlyRemote⟩
  | take wasLocal =>
      have nowhere : tokens.takes + tokens.active.toNat + tokens.releases = 0 := by
        by_contra somewhere
        rw [onlyRemote (Nat.pos_of_ne_zero somewhere)] at wasLocal
        cases wasLocal
      constructor
      · simp only [Tokens.total]
        omega
      · intro _
        rfl
  | takeDropped wasLocal =>
      constructor
      · exact atMostOne
      · intro _
        rfl
  | deliver delivered =>
      constructor
      · simp only [Tokens.total, Bool.toNat_true]
        omega
      · intro _
        exact onlyRemote (by omega)
  | «return» returned wasRemote =>
      constructor
      · simp only [Tokens.total]
        omega
      · intro somewhere
        simp only [Tokens.total] at somewhere
        omega
  | ignoreRelease ignored wasLocal =>
      rw [onlyRemote (by omega)] at wasLocal
      cases wasLocal
  | releaseDropped dropped =>
      constructor
      · simp only [Tokens.total]
        omega
      · intro _
        exact onlyRemote (by omega)

/-- A move that loses no token keeps control exactly where it has to be. -/
theorem exact (move : TokenMove tokens passage next) (notLost : passage ≠ .lost)
    (exactly : tokens.Exact) : next.Exact := by
  obtain ⟨ofLocal, ofRemote⟩ := exactly
  simp only [Tokens.total] at ofLocal ofRemote
  have isRemote : tokens.state ≠ .localActive → tokens.state = .remoteActive := by
    cases tokens.state <;> simp
  cases move with
  | keep => exact ⟨ofLocal, ofRemote⟩
  | take wasLocal =>
      have nowhere := ofLocal wasLocal
      constructor
      · intro isLocal
        cases isLocal
      · intro _
        simp only [Tokens.total]
        omega
  | takeDropped | releaseDropped => exact absurd rfl notLost
  | deliver delivered =>
      have wasRemote := isRemote fun wasLocal => by
        have nowhere := ofLocal wasLocal
        omega
      have single := ofRemote wasRemote
      constructor
      · intro isLocal
        rw [wasRemote] at isLocal
        cases isLocal
      · intro _
        simp only [Tokens.total, Bool.toNat_true]
        omega
  | «return» returned wasRemote =>
      have single := ofRemote wasRemote
      constructor
      · intro _
        simp only [Tokens.total]
        omega
      · intro isRemote
        cases isRemote
  | ignoreRelease ignored wasLocal =>
      have nowhere := ofLocal wasLocal
      omega

/-- A move that delivers nothing does not read the client's flag. -/
theorem deactivated (move : TokenMove tokens passage next)
    (notDelivered : passage ≠ .delivered) :
    TokenMove tokens.deactivated passage next.deactivated := by
  cases move with
  | keep => exact .keep
  | take wasLocal => exact .take wasLocal
  | takeDropped wasLocal => exact .takeDropped wasLocal
  | deliver => exact absurd rfl notDelivered
  | «return» returned wasRemote => exact .return returned wasRemote
  | ignoreRelease ignored wasLocal => exact .ignoreRelease ignored wasLocal
  | releaseDropped dropped => exact .releaseDropped dropped

theorem active_of_active (move : TokenMove tokens passage next)
    (wasActive : tokens.active = true) : next.active = true := by
  cases move with
  | deliver => rfl
  | keep | take | takeDropped | «return» | ignoreRelease | releaseDropped =>
      exact wasActive

end TokenMove

/-- How an undisturbed tick of the watcher moves control. -/
inductive TickMove (tokens : Tokens) : Tokens → Prop where
  | idle : TickMove tokens tokens
  | release (wasActive : tokens.active = true) :
      TickMove tokens { tokens with active := false, releases := tokens.releases + 1 }
  | releaseDropped (wasActive : tokens.active = true) :
      TickMove tokens { tokens with active := false }

theorem TickMove.once {tokens next : Tokens} (move : TickMove tokens next)
    (once : tokens.Once) : next.Once := by
  obtain ⟨atMostOne, onlyRemote⟩ := once
  simp only [Tokens.total] at atMostOne onlyRemote
  cases move with
  | idle => exact ⟨atMostOne, onlyRemote⟩
  | release wasActive =>
      rw [wasActive, Bool.toNat_true] at atMostOne onlyRemote
      constructor
      · simp only [Tokens.total, Bool.toNat_false]
        omega
      · intro _
        exact onlyRemote (by omega)
  | releaseDropped wasActive =>
      rw [wasActive, Bool.toNat_true] at atMostOne onlyRemote
      constructor
      · simp only [Tokens.total, Bool.toNat_false]
        omega
      · intro _
        exact onlyRemote (by omega)

end Kmwarp
