import VibeField.Tp.Touch

/-!
# Where the seats are written

A session's seat is its lease, whether a verb has named the session or not.  Ten of the
calls may write a lease, and a precheck writes it back as it is.
-/

namespace VibeField.Tp

def Op.movesSeats : Op → Bool
  | .attachControl _ | .viewDetached _ | .sessionRemoved _ | .claimGeometry _ _
  | .transferGeometry _ _ | .geometryFinalize _ _ _ | .releaseGeometry _ _ | .legClosed _
  | .revokeClient _ | .tick => true
  | _ => false

namespace ActivationTable

variable {t u : ActivationTable} {op : Op}

theorem lease_setLease (t : ActivationTable) (s s' : SessionId) (l : GeometryLease) :
    (t.setLease s l).lease s' = if s' = s then l else t.lease s' := by
  unfold lease setLease
  rw [Dict.lookup_insert]
  split <;> rfl

theorem lease_of_geometry (h : u.geometry = t.geometry) (s : SessionId) :
    u.lease s = t.lease s := by
  unfold lease
  rw [h]

theorem lease_rewrite (t : ActivationTable) (s s' : SessionId) :
    (t.setLease s (t.lease s)).lease s' = t.lease s' := by
  rw [lease_setLease]
  split
  · next hs => rw [hs]
  · rfl

theorem lease_claim (t : ActivationTable) (leg : LegRef) (msg : ClaimGeometry) (nowMs : Nat)
    (s : SessionId) : (t.claimGeometry leg msg nowMs).1.lease s = t.lease s := by
  rw [claimGeometry]
  split
  · rfl
  · split
    · rfl
    · split
      · rfl
      · dsimp only
        split
        · exact lease_rewrite t _ s
        · split <;> exact lease_rewrite t _ s

theorem lease_transfer (t : ActivationTable) (leg : LegRef) (msg : TransferGeometry) (nowMs : Nat)
    (s : SessionId) : (t.transferGeometry leg msg nowMs).1.lease s = t.lease s := by
  rw [transferGeometry]
  split
  · rfl
  · split
    · rfl
    · split
      · rfl
      · dsimp only
        split
        · exact lease_rewrite t _ s
        · split <;> exact lease_rewrite t _ s

theorem geometry_apply (t : ActivationTable) (m : Moment) (hop : op.movesSeats = false) :
    (t.apply m op).1.geometry = t.geometry := by
  cases op with
  | attachFrames i =>
    rw [apply, attachFrames]
    split
    · rfl
    · dsimp only [openAccount, modify]
      unfold resolveSceneEpoch
      split <;> rfl
  | viewAttached y v epoch =>
    rw [apply, viewAttached]
    split <;> rfl
  | declareDemand leg msg =>
    rw [apply, declareDemand]
    split
    · rfl
    · dsimp only
      split <;> rfl
  | requestScene leg msg =>
    rw [apply, requestScene]
    split
    · rfl
    · split <;> rfl
  | sceneApplied leg msg =>
    rw [apply, sceneApplied]
    split <;> rfl
  | presentationStopped y =>
    rw [apply, presentationStopped]
    split <;> rfl
  | creditReturned c credit =>
    rw [apply, creditReturned]
    split <;> rfl
  | tryAdmit c y bytes cls =>
    rw [apply, tryAdmit]
    split <;> rfl
  | canAdmit c y bytes cls =>
    rw [apply, canAdmit]
    split <;> rfl
  | openCredit | unitSent | sessionExited | pruneModelGenerations => rfl
  | _ => cases hop

end ActivationTable
end VibeField.Tp
