import VibeField.Tp.Door

/-!
# Pumps and the connections they run on

An activation recorded as running has its pump, and a live credit account, on the
frames connection it names.  That holds in every run where a frames attach moves
no running activation to another connection within its lineage, and no pump is
started ahead of an older stop.
-/

namespace VibeField.Tp

open List Option Dict ActivationTable Activation CreditLedger
namespace ActivationTable

variable {t u v : ActivationTable} {m : Moment} {op : Op} {x y : ActivationId}
  {c : ConnectionId} {a : Activation}

/-- The activation has a live account in the connection's ledger. -/
def LiveAccount (t : ActivationTable) (c : ConnectionId) (x : ActivationId) : Prop :=
  ∃ l, t.credit.lookup c = some l ∧ l.Live x

structure KeepsCredit (stays : Prop) (x : ActivationId) (t u : ActivationTable) : Prop where
  fresh : ∀ {c}, t.credit.lookup c = none → u.credit.lookup c = none
  live : stays → ∀ {c}, t.LiveAccount c x → u.LiveAccount c x

namespace KeepsCredit

variable {p q : Prop}

theorem of_eq (h : u.credit = t.credit) : KeepsCredit p x t u where
  fresh hc := by rw [h]; exact hc
  live := by rintro - c ⟨l, hl, hlive⟩; exact ⟨l, by rw [h]; exact hl, hlive⟩

theorem trans (h : KeepsCredit p x t u) (k : KeepsCredit p x u v) : KeepsCredit p x t v where
  fresh hc := k.fresh (h.fresh hc)
  live hp := fun hc => k.live hp (h.live hp hc)

theorem mono (hqp : q → p) (h : KeepsCredit p x t u) : KeepsCredit q x t u where
  fresh := h.fresh
  live hq := h.live (hqp hq)

theorem modify {f : CreditLedger → CreditLedger}
    (hf : p → ∀ l : CreditLedger, l.Live x → (f l).Live x) (c : ConnectionId) :
    KeepsCredit p x t { t with credit := t.credit.modify c f } where
  fresh {c'} hc := by
    rw [lookup_modify, hc]
    split <;> rfl
  live hp {c'} := by
    rintro ⟨l, hl, hlive⟩
    rw [LiveAccount, lookup_modify, hl]
    split
    · exact ⟨f l, rfl, hf hp l hlive⟩
    · exact ⟨l, rfl, hlive⟩

theorem insert {l l' : CreditLedger} (hl : t.credit.lookup c = some l) (hf : l.Live x → l'.Live x) :
    KeepsCredit p x t { t with credit := t.credit.insert c l' } where
  fresh {c'} hc := by
    rw [lookup_insert, if_neg]
    · exact hc
    · rintro rfl
      rw [hl] at hc
      cases hc
  live _ {c'} := by
    rintro ⟨k, hk, hlive⟩
    rw [LiveAccount, lookup_insert]
    split
    · next hcc =>
      rw [hcc, hl] at hk
      cases hk
      exact ⟨l', rfl, hf hlive⟩
    · exact ⟨k, hk, hlive⟩

end KeepsCredit

theorem credit_release (t : ActivationTable) (s : SessionId) (y : ActivationId) :
    (t.releaseGeometryIfHeld s y).1.credit = t.credit := by
  rw [releaseGeometryIfHeld]
  split <;> rfl

theorem keepsCredit_invalidate (h : t.WellIndexed) (r : Reason) (y : ActivationId) :
    KeepsCredit (x ≠ y) x t (t.invalidate m y r).1 := by
  rw [invalidate]
  split
  · exact .of_eq rfl
  · next a ha =>
    refine .trans (u := ((t.forget a y).releaseGeometryIfHeld a.sessionId y).1)
      (.of_eq (credit_release _ _ _)) ?_
    simp only [closeAccount]
    split
    · exact .of_eq rfl
    · refine .modify (fun hxy l hl => live_closeAccount ?_ hl) _
      rw [h.ids ha]
      exact hxy

theorem keepsCredit_invalidateAll (r : Reason) :
    ∀ (ids : List ActivationId) {t : ActivationTable}, t.WellIndexed →
      KeepsCredit (x ∉ ids) x t (t.invalidateAll m r ids).1
  | [], _, _ => .of_eq rfl
  | id :: rest, _, h => by
    refine .trans (.mono (fun hx => ?_) (keepsCredit_invalidate h r id))
      (.mono (fun hx => ?_) (keepsCredit_invalidateAll r rest (h.invalidate m id r)))
    · exact fun heq => hx (by rw [heq]; exact mem_cons_self)
    · exact fun hmem => hx (mem_cons_of_mem id hmem)

theorem credit_openControl (t : ActivationTable) (i : AttachControlInput) (es : List Effect) :
    (t.openControl m i es).1.credit = t.credit := by
  rw [openControl]
  split
  · rfl
  · split <;> rfl

theorem credit_reattach (t : ActivationTable) (i : AttachControlInput) (a : Activation) :
    (t.reattachControl m i a).1.credit = t.credit := by
  rw [reattachControl]
  split
  · rfl
  · simp only
    split
    · exact credit_release _ _ _
    · rfl

theorem keepsCredit_attachControl (h : t.WellIndexed) (i : AttachControlInput) :
    KeepsCredit ((t.attachControl m i).1.get x ≠ none) x t (t.attachControl m i).1 := by
  have hend := attachControl_end t h m i
  generalize t.attachControl m i = r at hend
  cases hend with
  | refused code retryable => exact .of_eq rfl
  | own a _ _ _ _ => exact .of_eq (credit_reattach t i a)
  | free _ _ _ => exact .of_eq (credit_openControl t i [])
  | replaced existing hr =>
    refine .trans (.mono (fun hstays => ?_) (keepsCredit_invalidate h .replaced existing))
      (.of_eq (credit_openControl _ i _))
    rintro rfl
    refine hstays ?_
    have hgone := get_invalidate t m .replaced x x
    rw [if_pos rfl] at hgone
    rw [openControl]
    split
    · exact hgone
    · split
      · exact hgone
      · exact (lookup_insert _ _ _ _).trans ((if_neg (replaces_iff.mp hr).ne).trans hgone)

theorem credit_resolve (t : ActivationTable) (s : SessionId) (epoch : Nat) :
    (t.resolveSceneEpoch s epoch).1.credit = t.credit := by
  rw [resolveSceneEpoch]
  split <;> rfl

theorem keepsCredit_openAccount {p : Prop} (t : ActivationTable) (c : ConnectionId)
    (y : ActivationId) : KeepsCredit p x t (t.openAccount c y) :=
  .modify (fun _ _ hl => live_openAccount hl) c

theorem keepsCredit_attachFrames {p : Prop} (i : AttachFramesInput) :
    KeepsCredit p x t (t.attachFrames i).1 := by
  rw [attachFrames]
  split
  · exact .of_eq rfl
  · have hresolve := credit_resolve t i.claims.sessionId i.sessionEpoch
    generalize t.resolveSceneEpoch i.claims.sessionId i.sessionEpoch = resolved at hresolve ⊢
    exact .trans (u := resolved.1.modify i.activationId _) (.of_eq hresolve)
      (keepsCredit_openAccount _ _ _)

theorem liveAccount_attachFrames {i : AttachFramesInput} {trf : TrfIdentity}
    (htarget : t.framesTarget i = .ok (a, trf))
    (hledger : (t.creditLedger i.leg.connectionId).isSome = true) :
    (t.attachFrames i).1.LiveAccount i.leg.connectionId i.activationId := by
  obtain ⟨l, hl⟩ := isSome_iff_exists.mp hledger
  refine ⟨l.openAccount i.activationId, ?_, live_openAccount_self l _⟩
  have hresolve := credit_resolve t i.claims.sessionId i.sessionEpoch
  simp only [attachFrames, htarget]
  generalize t.resolveSceneEpoch i.claims.sessionId i.sessionEpoch = resolved at hresolve ⊢
  rw [openAccount, lookup_modify, if_pos rfl]
  show (resolved.1.credit.lookup _).map _ = _
  rw [hresolve]
  exact congrArg (Option.map _) hl

/-- What an operation keeps of the ledgers and of the account of an activation that
stays, apart from the ledger of a closing leg. -/
theorem keepsCredit_apply (h : t.WellIndexed) (hop : ∀ c epoch windows reserve,
    op ≠ .openCredit c epoch windows reserve) (hleg : ∀ c, op ≠ .legClosed c) :
    KeepsCredit ((t.apply m op).1.get x ≠ none) x t (t.apply m op).1 := by
  have hall : ∀ (r : Reason) (ids : List ActivationId),
      KeepsCredit ((t.invalidateAll m r ids).1.get x ≠ none) x t
        (t.invalidateAll m r ids).1 := fun r ids =>
    (keepsCredit_invalidateAll r ids h).mono fun hne hmem => hne (by
      rw [get_invalidateAll, if_pos hmem])
  cases op with
  | openCredit c epoch windows reserve => exact absurd rfl (hop c epoch windows reserve)
  | attachControl i => exact keepsCredit_attachControl h i
  | attachFrames i => exact keepsCredit_attachFrames i
  | viewAttached y v epoch =>
    simp only [apply, viewAttached]
    split <;> exact .of_eq rfl
  | viewDetached y =>
    simp only [apply, viewDetached]
    split
    · exact .of_eq rfl
    · exact .of_eq (credit_release _ _ _)
  | declareDemand leg msg =>
    simp only [apply, declareDemand]
    split
    · exact .of_eq rfl
    · split <;> exact .of_eq rfl
  | requestScene leg msg =>
    simp only [apply, requestScene]
    split
    · exact .of_eq rfl
    · split <;> exact .of_eq rfl
  | sceneApplied leg msg =>
    simp only [apply, sceneApplied]
    split <;> exact .of_eq rfl
  | unitSent y revision seed => exact .of_eq rfl
  | presentationStopped y =>
    simp only [apply, presentationStopped]
    split <;> exact .of_eq rfl
  | sessionExited s => exact .of_eq rfl
  | sessionRemoved s => exact hall _ _
  | creditReturned c credit =>
    simp only [apply, creditReturned]
    split
    · exact .of_eq rfl
    · next hl => exact .insert hl (live_returned credit)
  | tryAdmit c y bytes cls =>
    simp only [apply, tryAdmit]
    split
    · exact .of_eq rfl
    · next hl => exact .insert hl (live_tryAdmit bytes cls)
  | canAdmit c y bytes cls =>
    simp only [apply, canAdmit]
    split
    · exact .of_eq rfl
    · next hl => exact .insert hl (live_canAdmit bytes cls)
  | claimGeometry leg msg =>
    simp only [apply, claimGeometry]
    repeat' split
    all_goals exact .of_eq rfl
  | transferGeometry leg msg =>
    simp only [apply, transferGeometry]
    repeat' split
    all_goals exact .of_eq rfl
  | geometryFinalize leg proceed outcome =>
    simp only [apply, geometryFinalize]
    split <;> exact .of_eq rfl
  | releaseGeometry leg msg =>
    simp only [apply, releaseGeometry]
    repeat' split
    all_goals exact .of_eq rfl
  | legClosed c => exact absurd rfl (hleg c)
  | revokeClient client => exact hall _ _
  | tick =>
    simp only [apply, tick, recomputeAll, get_mapVals]
    have h₁ := WellIndexed.invalidateAll m .rightRevoked (t.idsWhere (grantExpired m)) h
    have hfirst := hall .rightRevoked (t.idsWhere (grantExpired m))
    generalize (t.invalidateAll m .rightRevoked (t.idsWhere (grantExpired m))).1 = t₁ at *
    have hsecond := keepsCredit_invalidateAll (x := x) (m := m) .attachDeadline
      (t₁.idsWhere (attachOverdue t₁.attachDeadline m)) h₁
    have hget := get_invalidateAll m .attachDeadline x
      (t₁.idsWhere (attachOverdue t₁.attachDeadline m)) t₁
    generalize t₁.idsWhere (attachOverdue t₁.attachDeadline m) = ids at *
    generalize (t₁.invalidateAll m .attachDeadline ids).1 = t₂ at *
    have hin : ∀ f : Activation → Activation, Option.map f (t₂.get x) ≠ none → x ∉ ids :=
      fun f hne hmem => hne (by rw [hget, if_pos hmem]; rfl)
    refine .trans (u := t₁) (hfirst.mono fun hne hnone => hne ?_)
      (.trans (u := t₂) (hsecond.mono (hin _)) (.of_eq rfl))
    rw [hget, if_neg (hin _ hne), hnone]
    rfl
  | pruneModelGenerations live => exact .of_eq rfl

theorem keepsCredit_legClosed (h : t.WellIndexed) (c : ConnectionId) :
    (∀ {c'}, t.credit.lookup c' = none → (t.legClosed m c).1.credit.lookup c' = none) ∧
    ((t.legClosed m c).1.get x ≠ none → ∀ {c'}, c' ≠ c → t.LiveAccount c' x →
      (t.legClosed m c).1.LiveAccount c' x) := by
  have hkeep := keepsCredit_invalidateAll (x := x) (m := m) .legDead (t.idsWhere (ridesLeg c)) h
  have hget := get_invalidateAll m .legDead x (t.idsWhere (ridesLeg c)) t
  have hlookup : ∀ c', (t.legClosed m c).1.credit.lookup c' = if c' = c then none
      else (t.invalidateAll m .legDead (t.idsWhere (ridesLeg c))).1.credit.lookup c' :=
    fun c' => lookup_erase _ c c'
  refine ⟨fun {c'} hnone => ?_, fun hstays {c'} hne hlive => ?_⟩
  · rw [hlookup, hkeep.fresh hnone]
    split <;> rfl
  · have hx : x ∉ t.idsWhere (ridesLeg c) := fun hmem => hstays (hget.trans (if_pos hmem))
    obtain ⟨l, hl, hlive⟩ := hkeep.live hx hlive
    exact ⟨l, by rw [hlookup, if_neg hne]; exact hl, hlive⟩

end ActivationTable

def Effect.movesPump : Effect → Bool
  | .startPump _ => true
  | .stopPump _ => true
  | _ => false

def Item.pumps (x : ActivationId) : Item → Bool
  | .perform (.startPump y) => y == x
  | .perform (.stopPump y) => y == x
  | _ => false

/-- The parts of a record the pump depends on. -/
structure SamePump (a b : Activation) : Prop where
  sessionId : b.sessionId = a.sessionId
  running : b.pumpRunning = a.pumpRunning
  frames : b.frames = a.frames
  epoch : b.sceneEpoch = a.sceneEpoch

/-- What an operation the door calls does to the pump of `x`. -/
inductive PumpMove (t : ActivationTable) (op : Op) (x : ActivationId) :
    Option Activation → Option Activation → List Effect → Prop
  | keeps (a b : Activation) (hsame : SamePump a b) : PumpMove t op x (some a) (some b) []
  | absent : PumpMove t op x none none []
  | opens (a : Activation) (hrunning : a.pumpRunning = false) (hframes : a.frames = none) :
      PumpMove t op x none (some a) []
  | frames (i : AttachFramesInput) (hop : op = .attachFrames i) (hx : i.activationId = x)
      (a : Activation) (trf : TrfIdentity) (htarget : t.framesTarget i = .ok (a, trf))
      (epoch : SceneEpoch)
      (hepoch : epoch = (t.resolveSceneEpoch i.claims.sessionId i.sessionEpoch).2) :
      PumpMove t op x (some a) (some (a.framesAttached i.leg trf i.resumeToken epoch))
        (a.framedEffects i.leg epoch)
  | leaves (a : Activation) (es : List Effect) : PumpMove t op x (some a) none es

namespace ActivationTable

variable {t : ActivationTable} {m : Moment} {op : Op} {x : ActivationId}

def pumpEffects (x : ActivationId) (es : List Effect) : List Effect :=
  (driven x es).filter Effect.movesPump

theorem samePump_reattached (a : Activation) (leg : LegRef) (claims : AttachClaims) :
    SamePump a (a.reattached m leg claims) := by
  rw [Activation.reattached]
  split <;> exact ⟨rfl, rfl, rfl, rfl⟩

theorem samePump_demanded (a : Activation) (msg : DeclareDemand) :
    SamePump a (a.demanded m msg) := by
  rw [Activation.demanded]
  split <;> exact ⟨rfl, rfl, rfl, rfl⟩

theorem samePump_sceneApplied (a : Activation) (content : SceneContentStamp) :
    SamePump a (a.sceneApplied m content) := by
  simp only [Activation.sceneApplied]
  split <;> exact ⟨rfl, rfl, rfl, rfl⟩

theorem samePump_presentationStopped (a : Activation) (reason : Reason) :
    SamePump a (a.presentationStopped m reason) := by
  rw [Activation.presentationStopped]
  split
  · exact ⟨rfl, rfl, rfl, rfl⟩
  · split <;> exact ⟨rfl, rfl, rfl, rfl⟩

theorem samePump_sessionExited (a : Activation) : SamePump a (a.sessionExited m) := by
  rw [Activation.sessionExited]
  split <;> exact ⟨rfl, rfl, rfl, rfl⟩

theorem samePump_recomputed (a : Activation) : SamePump a (recomputed m a) := by
  rw [recomputed]
  split <;> exact ⟨rfl, rfl, rfl, rfl⟩

theorem pumpMove_apply {d : Door} (h : d.table.WellIndexed) (hmay : d.mayCall op = true) :
    PumpMove d.table op x (d.table.get x) ((d.table.apply m op).1.get x)
      (pumpEffects x (d.table.apply m op).2) := by
  have htouch := touch_apply h m op x
  rw [pumpEffects]
  generalize d.table.get x = r at htouch ⊢
  generalize (d.table.apply m op).1.get x = r' at htouch ⊢
  generalize driven x (d.table.apply m op).2 = es at htouch ⊢
  cases htouch with
  | kept =>
    cases r with
    | none => exact .absent
    | some a => exact .keeps a _ ⟨rfl, rfl, rfl, rfl⟩
  | opened i hx hopens =>
    rw [openedEffects]
    split <;> exact .opens _ rfl rfl
  | reattached i a => exact .keeps a _ (samePump_reattached a _ _)
  | framed i a trf hx htarget =>
    have hes : ∀ epoch, (a.framedEffects i.leg epoch).filter Effect.movesPump =
        a.framedEffects i.leg epoch := by
      intro epoch
      rw [framedEffects]
      split <;> split <;> rfl
    rw [hes]
    exact .frames i rfl hx a trf htarget _ rfl
  | viewed v epoch a => cases hmay
  | unviewed a => cases hmay
  | demanded leg msg a _ _ _ =>
    have hes : (a.demandedEffects msg).filter Effect.movesPump = [] := by
      rw [Activation.demandedEffects]
      split
      · rfl
      · split <;> rfl
      · cases a.view <;> rfl
    rw [hes]
    exact .keeps a _ (samePump_demanded a msg)
  | repaired leg msg a => exact .keeps a _ ⟨rfl, rfl, rfl, rfl⟩
  | acknowledged leg msg a => exact .keeps a _ (samePump_sceneApplied a _)
  | sent revision seed a => exact .keeps a _ ⟨rfl, rfl, rfl, rfl⟩
  | stopped a => exact .keeps a _ (samePump_presentationStopped a _)
  | exited s a => exact .keeps a _ (samePump_sessionExited a)
  | recomputed a => exact .keeps a _ (samePump_recomputed a)
  | removed _ a => exact .leaves a _
  | lost i a => exact .leaves a _

end ActivationTable

/-! ## The invariant of one activation's pump -/

/-- What the record, the outstanding items, the pumps and the ledgers say about the
pump of `x`. -/
structure PumpTracked (x : ActivationId) (r : Option Activation) (out : Item → Prop)
    (pump : Option Pump) (live : ConnectionId → Prop) (left : List SessionId) : Prop where
  framed : ∀ {a f}, r = some a → a.frames = some f →
    live f.connectionId ∧ a.sceneEpoch.isSome = true
  bound : ∀ {a}, r = some a → a.pumpRunning = true → ∃ f, a.frames = some f ∧
    (a.sessionId ∈ left ∨ out (.perform (.startPump x)) ∨
      (pump = some { connectionId := f.connectionId, ended := false } ∧
        ¬ out (.perform (.stopPump x))))

namespace PumpTracked

variable {x : ActivationId} {r : Option Activation} {out out' : Item → Prop}
  {pump pump' : Option Pump} {live live' : ConnectionId → Prop} {left left' : List SessionId}
  {a b : Activation}

theorem absent : PumpTracked x none out pump live left where
  framed h := by cases h
  bound h := by cases h

theorem congr (h : PumpTracked x (some a) out pump live left)
    (hsame : SamePump a b)
    (hstart : out (.perform (.startPump x)) → out' (.perform (.startPump x)))
    (hstop : out' (.perform (.stopPump x)) → out (.perform (.stopPump x)))
    (hpump : ∀ f, a.frames = some f → live f.connectionId →
      pump = some { connectionId := f.connectionId, ended := false } → pump' = pump)
    (hlive : ∀ f, a.frames = some f → live f.connectionId → live' f.connectionId)
    (hleft : ∀ s, s ∈ left → s ∈ left') : PumpTracked x (some b) out' pump' live' left' where
  framed {c f} hc hf := by
    cases hc
    rw [hsame.frames] at hf
    rw [hsame.epoch]
    exact ⟨hlive f hf (h.framed rfl hf).1, (h.framed rfl hf).2⟩
  bound {c} hc hrun := by
    cases hc
    rw [hsame.running] at hrun
    obtain ⟨f, hf, hor⟩ := h.bound rfl hrun
    refine ⟨f, hsame.frames.trans hf, ?_⟩
    rw [hsame.sessionId]
    refine hor.imp (hleft _) fun hor => hor.imp hstart fun ⟨hp, hnot⟩ => ?_
    exact ⟨(hpump f hf (h.framed rfl hf).1 hp).trans hp, fun ho => hnot (hstop ho)⟩

theorem frames {i : AttachFramesInput} {trf : TrfIdentity} {epoch : SceneEpoch}
    (h : PumpTracked x (some a) out pump live left)
    (hstart : out (.perform (.startPump x)) ∨ a.startsPump i.leg epoch = true →
      out' (.perform (.startPump x)))
    (hstop : out' (.perform (.stopPump x)) →
      out (.perform (.stopPump x)) ∨ a.stopsPump epoch = true)
    (hstays : a.pumpRunning = true → a.lineageChanged epoch = false →
      out (.perform (.startPump x)) ∨ ∀ f, a.frames = some f → i.leg.connectionId = f.connectionId)
    (hlive : live' i.leg.connectionId) :
    PumpTracked x (some (a.framesAttached i.leg trf i.resumeToken epoch)) out' pump live' left where
  framed {c f} hc hf := by
    cases hc
    cases hf
    exact ⟨hlive, rfl⟩
  bound {c} hc hrun := by
    cases hc
    refine ⟨i.leg, rfl, ?_⟩
    by_cases hstarts : a.startsPump i.leg epoch = true
    · exact .inr (.inl (hstart (.inr hstarts)))
    · -- the pump kept running, so the lineage is the same and no stop is asked
      have hkept : (a.pumpRunning && !a.stopsPump epoch) = true := by
        have hrun' : ((a.pumpRunning && !a.stopsPump epoch) || a.startsPump i.leg epoch) = true :=
          hrun
        simpa [Bool.eq_false_iff.mpr hstarts] using hrun'
      simp only [Bool.and_eq_true, Bool.not_eq_true'] at hkept
      obtain ⟨hrunning, hstops⟩ := hkept
      have hsame : a.lineageChanged epoch = false := by
        simpa [stopsPump, hrunning] using hstops
      obtain ⟨f, hf, hor⟩ := h.bound rfl hrunning
      rcases hstays hrunning hsame with ho | hleg
      · exact .inr (.inl (hstart (.inl ho)))
      · refine hor.imp_right fun hor => hor.imp (fun ho => hstart (.inl ho)) fun ⟨hp, hnot⟩ => ?_
        refine ⟨by rw [hp, hleg f hf], fun ho => ?_⟩
        rcases hstop ho with ho | hstops'
        · exact hnot ho
        · rw [hstops] at hstops'
          cases hstops'

end PumpTracked

/-! ## Every run that keeps pumps bound -/

namespace Door

variable {d : Door} {x y : ActivationId}

/-- The frames attach would move a running activation to another connection within
its lineage, with no start of its pump under way. -/
def Repoints (d : Door) (i : AttachFramesInput) : Prop :=
  ∃ a trf, d.table.framesTarget i = .ok (a, trf) ∧ a.pumpRunning = true ∧
    a.lineageChanged (d.table.resolveSceneEpoch i.claims.sessionId i.sessionEpoch).2 = false ∧
    (∃ f, a.frames = some f ∧ f.connectionId ≠ i.leg.connectionId) ∧
    ¬ d.Outstanding (.perform (.startPump i.activationId))

def KeepsPumps (d : Door) : DoorEvent → Prop
  | .call _ (.attachFrames i) => ¬ d.Repoints i
  | .perform n _ => ∀ x, d.tasks.head n = some (.perform (.startPump x)) →
      ¬ d.tasks.Bare (.perform (.stopPump x)) (.perform (.startPump x))
  | _ => True

def TracksPump (d : Door) (x : ActivationId) : Prop :=
  PumpTracked x (d.table.get x) d.Outstanding (d.pumps.lookup x)
    (fun c => d.table.LiveAccount c x) d.left

/-- Only accepted legs have ledgers. -/
def LedgersAccepted (d : Door) : Prop :=
  ∀ c, d.nextConnectionId ≤ c → d.table.credit.lookup c = none

theorem mem_pumpEffects {es : List Effect} {i : Item} (hi : i.pumps x = true) :
    i ∈ es.map .perform ↔ ∃ e ∈ pumpEffects x es, i = .perform e := by
  constructor
  · intro hmem
    obtain ⟨e, he, rfl⟩ := List.mem_map.mp hmem
    refine ⟨e, mem_filter.mpr ⟨mem_filter.mpr ⟨he, ?_⟩, ?_⟩, rfl⟩
    · cases e <;> simp_all [Item.pumps, Effect.drives]
    · cases e <;> simp_all [Item.pumps, Effect.movesPump]
  · rintro ⟨e, he, rfl⟩
    exact List.mem_map.mpr ⟨e, (mem_filter.mp (mem_filter.mp he).1).1, rfl⟩

variable {a : Activation} {epoch : Option Nat} {item : Item} {m : Moment} {n : Nat} {op : Op}

theorem ledgersAccepted_call (hwell : d.table.WellIndexed) (hmay : d.mayCall op = true)
    (h : d.LedgersAccepted) : (d.call m op).LedgersAccepted := by
  intro c hc
  rw [table_call]
  by_cases hleg : ∃ c', op = .legClosed c'
  · obtain ⟨c', rfl⟩ := hleg
    exact (keepsCredit_legClosed (x := "") hwell c').1 (h c hc)
  · refine (keepsCredit_apply (x := "") hwell ?_ fun c' heq => hleg ⟨c', heq⟩).fresh
      (h c hc)
    rintro _ _ _ _ rfl
    cases hmay

theorem liveAccount_call (hwell : d.table.WellIndexed) (hmay : d.mayCall op = true) {f : LegRef}
    (ha : d.table.get x = some a) (hf : a.frames = some f)
    (hstays : (d.table.apply m op).1.get x ≠ none) (hlive : d.table.LiveAccount f.connectionId x) :
    (d.table.apply m op).1.LiveAccount f.connectionId x := by
  by_cases hleg : ∃ c, op = .legClosed c
  · obtain ⟨c, rfl⟩ := hleg
    refine (keepsCredit_legClosed hwell c).2 hstays ?_ hlive
    rintro rfl
    refine hstays ?_
    have hrides : ridesLeg f.connectionId a = true := by
      simp [ridesLeg, hf]
    exact (get_invalidateAll m .legDead x _ d.table).trans
      (if_pos ((mem_idsWhere hwell).mpr ⟨a, ha, hrides⟩))
  · refine (keepsCredit_apply hwell ?_ fun c heq => hleg ⟨c, heq⟩).live hstays hlive
    rintro _ _ _ _ rfl
    cases hmay

theorem stopsPump_of_mem {leg : LegRef} {epoch : SceneEpoch}
    (h : .stopPump y ∈ a.framedEffects leg epoch) : a.stopsPump epoch = true := by
  cases hstops : a.stopsPump epoch with
  | true => rfl
  | false =>
    cases hstarts : a.startsPump leg epoch <;>
      simp [framedEffects, hstops, hstarts] at h

theorem tracksPump_call (hwell : d.table.WellIndexed) (hmay : d.mayCall op = true)
    (hkeep : d.KeepsPumps (.call m op)) (h : d.TracksPump x) : (d.call m op).TracksPump x := by
  have hmove := pumpMove_apply (m := m) (x := x) hwell hmay
  have hout : ∀ i, i.pumps x = true → ((d.call m op).Outstanding i ↔ d.Outstanding i ∨
      ∃ e ∈ pumpEffects x (d.table.apply m op).2, i = .perform e) := by
    intro i hi
    rw [← mem_pumpEffects hi]
    exact Tasks.outstanding_spawn
  have hstart := hout (.perform (.startPump x)) (beq_self_eq_true x)
  have hstop := hout (.perform (.stopPump x)) (beq_self_eq_true x)
  have hlive : ∀ {a f}, d.table.get x = some a → a.frames = some f →
      (d.table.apply m op).1.get x ≠ none → d.table.LiveAccount f.connectionId x →
      (d.table.apply m op).1.LiveAccount f.connectionId x :=
    fun ha hf => liveAccount_call hwell hmay ha hf
  rw [TracksPump] at h ⊢
  rw [table_call]
  generalize hr : d.table.get x = r at hmove h hlive
  generalize hr' : (d.table.apply m op).1.get x = r' at hmove hlive ⊢
  generalize pumpEffects x (d.table.apply m op).2 = es at hmove hstart hstop
  cases hmove with
  | absent => exact .absent
  | leaves a es => exact .absent
  | opens a hrunning hframes =>
    exact
      { framed := fun hb hf => by cases hb; rw [hframes] at hf; cases hf
        bound := fun hb hrun => by cases hb; rw [hrunning] at hrun; cases hrun }
  | keeps a b hsame =>
    refine h.congr hsame (fun ho => hstart.mpr (.inl ho)) (fun ho => ?_) (fun _ _ _ _ => rfl)
      (fun f hf => hlive rfl hf (some_ne_none b)) fun _ => id
    exact (hstop.mp ho).resolve_right (by rintro ⟨e, he, -⟩; cases he)
  | frames i hop hx a trf htarget epoch hepoch =>
    subst hop
    have hx' : a.activationId = x := hwell.ids hr
    refine h.frames (fun ho => hstart.mpr (ho.imp_right fun hs => ?_)) (fun ho => ?_)
      (fun hrunning hlineage => ?_) ?_
    · refine ⟨.startPump x, ?_, rfl⟩
      simp [framedEffects, hs, hx']
    · refine (hstop.mp ho).imp_right ?_
      rintro ⟨e, he, heq⟩
      cases heq
      exact stopsPump_of_mem he
    · by_contra hnot
      simp only [not_or, not_forall] at hnot
      obtain ⟨hno, f, hf, hne⟩ := hnot
      refine hkeep ⟨a, trf, htarget, hrunning, ?_, ⟨f, hf, fun heq => hne heq.symm⟩, ?_⟩
      · rw [← hepoch]
        exact hlineage
      · rw [hx]
        exact hno
    · have hacc := liveAccount_attachFrames htarget hmay
      rw [hx] at hacc
      exact hacc

theorem tracksPump_idle {front : List Item} {d' : Door} (hhead : d.tasks.head n = some item)
    (hitem : item ≠ .perform (.startPump x)) (hfront : .perform (.stopPump x) ∉ front)
    (htable : d'.table = d.table) (hpumps : d'.pumps.lookup x = d.pumps.lookup x)
    (hleft : d'.left = d.left) (htasks : d'.tasks = d.tasks.advance n front [])
    (h : d.TracksPump x) : d'.TracksPump x := by
  rw [TracksPump] at h ⊢
  rw [htable, hpumps, hleft]
  cases hr : d.table.get x with
  | none => exact .absent
  | some a =>
    rw [hr] at h
    refine h.congr ⟨rfl, rfl, rfl, rfl⟩ (fun ho => ?_) (fun ho => ?_) (fun _ _ _ _ => rfl)
      (fun _ _ hl => hl) fun _ => id
    · rw [Outstanding, htasks]
      exact Tasks.outstanding_advance_of_ne hhead ho (Ne.symm hitem)
    · rw [Outstanding, htasks] at ho
      rcases Tasks.outstanding_advance hhead ho with ho | ho | ho
      · exact ho
      · exact absurd ho hfront
      · cases ho

theorem tracksPump_start (hhead : d.tasks.head n = some (.perform (.startPump x)))
    (hbare : ¬ d.tasks.Bare (.perform (.stopPump x)) (.perform (.startPump x)))
    (h : d.TracksPump x) : (d.perform n epoch (.perform (.startPump x))).TracksPump x := by
  have htable : (d.perform n epoch (.perform (.startPump x))).table = d.table := by
    simp only [perform, performItem, startPump]
    split <;> rfl
  have hleft : (d.perform n epoch (.perform (.startPump x))).left = d.left := by
    simp only [perform, performItem, startPump]
    split <;> rfl
  have htasks : (d.perform n epoch (.perform (.startPump x))).tasks =
      d.tasks.advance n [] [] := rfl
  rw [TracksPump] at h ⊢
  rw [htable, hleft]
  cases hr : d.table.get x with
  | none => exact .absent
  | some a =>
    rw [hr] at h
    refine ⟨fun {b f} hb hf => h.framed hb hf, fun {b} hb hrun => ?_⟩
    cases hb
    obtain ⟨f, hf, -⟩ := h.bound rfl hrun
    refine ⟨f, hf, ?_⟩
    by_cases hgone : a.sessionId ∈ d.left
    · exact .inl hgone
    · by_cases hstart : (d.perform n epoch (.perform (.startPump x))).Outstanding
          (.perform (.startPump x))
      · exact .inr (.inl hstart)
      · refine .inr (.inr ⟨?_, fun ho => ?_⟩)
        · obtain ⟨⟨l, hl, -⟩, hepoch⟩ := h.framed rfl hf
          have hconn : d.pumpConnection x = some f.connectionId := by
            simp [pumpConnection, hr, hf, hgone, hepoch, creditLedger, hl]
          simp only [perform, performItem, startPump, hconn]
          rw [lookup_insert, if_pos rfl]
        · -- with no start left, no stop is left either
          rw [Outstanding, htasks] at ho hstart
          have hnot := Tasks.not_outstanding_of_not_bare hhead hbare hstart (by rintro ⟨⟩)
          rcases Tasks.outstanding_advance hhead ho with ho | ho | ho
          · exact hnot ho
          · cases ho
          · cases ho

theorem tracksPump_stop (hhead : d.tasks.head n = some (.perform (.stopPump x)))
    (h : d.TracksPump x) : (d.perform n epoch (.perform (.stopPump x))).TracksPump x := by
  refine ⟨h.framed, fun {a} ha hrun => ?_⟩
  obtain ⟨f, hf, hor⟩ := h.bound ha hrun
  refine ⟨f, hf, hor.imp_right fun hor => ?_⟩
  rcases hor with ho | ⟨-, hnot⟩
  · exact .inl (Tasks.outstanding_advance_of_ne hhead ho (by rintro ⟨⟩))
  · exact absurd (Tasks.outstanding_head hhead) hnot

theorem credit_viewAttached (t : ActivationTable) (v : ViewId) (e : Nat) :
    (t.viewAttached y v e).1.credit = t.credit := by
  rw [ActivationTable.viewAttached]
  split <;> rfl

theorem credit_viewDetached (t : ActivationTable) : (t.viewDetached y).1.credit = t.credit := by
  rw [ActivationTable.viewDetached]
  split
  · rfl
  · exact credit_release _ _ _

theorem tracksPump_report (t' : ActivationTable)
    (es : List Effect) (hhead : d.tasks.head n = some item)
    (hitem : item ≠ .perform (.startPump x))
    (hperform : d.performItem epoch item = ({ d with table := t' }, [], es))
    (hes : .stopPump x ∉ es) (hcredit : t'.credit = d.table.credit)
    (hrecord : (d.table.get x = none ∧ t'.get x = none) ∨
      ∃ a b, d.table.get x = some a ∧ t'.get x = some b ∧ SamePump a b)
    (h : d.TracksPump x) : (d.perform n epoch item).TracksPump x := by
  have hstart : d.Outstanding (.perform (.startPump x)) →
      (d.perform n epoch item).Outstanding (.perform (.startPump x)) := fun ho =>
    Tasks.outstanding_advance_of_ne hhead ho (Ne.symm hitem)
  have hstop : (d.perform n epoch item).Outstanding (.perform (.stopPump x)) →
      d.Outstanding (.perform (.stopPump x)) := by
    intro ho
    simp only [perform, hperform] at ho
    rcases Tasks.outstanding_advance hhead ho with ho | ho | ho
    · exact ho
    · cases ho
    · obtain ⟨e, he, heq⟩ := List.mem_map.mp ho
      cases heq
      exact absurd he hes
  have hlive : ∀ c, d.table.LiveAccount c x → t'.LiveAccount c x := by
    rintro c ⟨l, hl, hlive⟩
    exact ⟨l, by rw [hcredit]; exact hl, hlive⟩
  rw [TracksPump] at h ⊢
  have htable : (d.perform n epoch item).table = t' := by simp only [perform, hperform]
  have hpumps : (d.perform n epoch item).pumps = d.pumps := by simp only [perform, hperform]
  have hleft : (d.perform n epoch item).left = d.left := by simp only [perform, hperform]
  rw [htable, hpumps, hleft]
  rcases hrecord with ⟨-, hnone⟩ | ⟨a, b, ha, hb, hsame⟩
  · rw [hnone]
    exact .absent
  · rw [hb]
    rw [ha] at h
    exact h.congr hsame hstart hstop (fun _ _ _ _ => rfl) (fun _ _ => hlive _) fun _ => id

theorem samePump_map {r : Option Activation} {f : Activation → Activation}
    (hf : ∀ a, r = some a → SamePump a (f a)) (p : Prop) [Decidable p] :
    (r = none ∧ (if p then r.map f else r) = none) ∨
      ∃ a b, r = some a ∧ (if p then r.map f else r) = some b ∧ SamePump a b := by
  cases r with
  | none => exact .inl ⟨rfl, by split <;> rfl⟩
  | some a =>
    refine .inr ?_
    split
    · exact ⟨a, f a, rfl, rfl, hf a rfl⟩
    · exact ⟨a, a, rfl, rfl, rfl, rfl, rfl, rfl⟩

theorem tracksPump_viewed {v : ViewId} {e : Nat}
    (hhead : d.tasks.head n = some (.reportAttached x v e)) (ha : d.table.get x = some a)
    (hstarts : (a.frames.isSome && !a.pumpRunning) = true) (h : d.TracksPump x) :
    (d.perform n epoch (.reportAttached x v e)).TracksPump x := by
  have hfollow : (d.perform n epoch (.reportAttached x v e)).Outstanding
      (.perform (.startPump x)) := by
    refine Tasks.outstanding_follow hhead (List.mem_map.mpr ⟨_, ?_, rfl⟩)
    simp [performItem, ActivationTable.viewAttached, ha, hstarts]
  have hget := get_viewAttached d.table x x v e
  rw [if_pos rfl, ha] at hget
  rw [TracksPump] at h ⊢
  rw [show (d.perform n epoch (.reportAttached x v e)).table.get x =
    some (a.viewAttached v e) from hget]
  rw [ha] at h
  refine ⟨fun {b f} hb hf => ?_, fun {b} hb _ => ?_⟩
  · cases hb
    obtain ⟨⟨l, hl, hlive⟩, hepoch⟩ := h.framed rfl hf
    have hcredit : (d.perform n epoch (.reportAttached x v e)).table.credit = d.table.credit :=
      credit_viewAttached d.table v e
    exact ⟨⟨l, by rw [hcredit]; exact hl, hlive⟩, hepoch⟩
  · cases hb
    simp only [Bool.and_eq_true] at hstarts
    obtain ⟨f, hf⟩ := isSome_iff_exists.mp hstarts.1
    exact ⟨f, hf, .inr (.inl hfollow)⟩

theorem tracksPump_reportAttached {v : ViewId} {e : Nat}
    (hhead : d.tasks.head n = some (.reportAttached y v e)) (h : d.TracksPump x) :
    (d.perform n epoch (.reportAttached y v e)).TracksPump x := by
  by_cases hstarts : x = y ∧ ∃ a, d.table.get x = some a ∧
      (a.frames.isSome && !a.pumpRunning) = true
  · obtain ⟨rfl, a, ha, hstarts⟩ := hstarts
    exact tracksPump_viewed hhead ha hstarts h
  · refine tracksPump_report (d.table.viewAttached y v e).1 (d.table.viewAttached y v e).2
      hhead (by rintro ⟨⟩) rfl ?_
      (credit_viewAttached d.table v e) ?_ h
    · intro hmem
      rw [ActivationTable.viewAttached] at hmem
      split at hmem
      · cases hmem
      · simp only at hmem
        split at hmem <;> cases mem_singleton.mp hmem
    · rw [get_viewAttached]
      by_cases hxy : x = y
      · refine samePump_map (f := (·.viewAttached v e)) (fun a ha => ⟨rfl, ?_, rfl, rfl⟩) (x = y)
        have hnot : ¬ (a.frames.isSome && !a.pumpRunning) = true := fun h' =>
          hstarts ⟨hxy, a, ha, h'⟩
        cases hrun : a.pumpRunning <;> cases hf : a.frames <;>
          simp_all [Activation.viewAttached]
      · rw [if_neg hxy]
        exact samePump_map (f := id) (fun a _ => ⟨rfl, rfl, rfl, rfl⟩) False

theorem tracksPump_reportDetached (hhead : d.tasks.head n = some (.reportDetached y))
    (h : d.TracksPump x) : (d.perform n epoch (.reportDetached y)).TracksPump x := by
  refine tracksPump_report (d.table.viewDetached y).1 (d.table.viewDetached y).2 hhead
    (by rintro ⟨⟩) rfl (fun hmem => ?_) (credit_viewDetached d.table) ?_ h
  · have hin : Effect.stopPump x ∈ driven x (d.table.viewDetached y).2 :=
      mem_filter.mpr ⟨hmem, beq_self_eq_true x⟩
    rw [driven_viewDetached] at hin
    cases hin
  · rw [get_viewDetached]
    exact samePump_map (f := Activation.viewDetached) (fun a _ => ⟨rfl, rfl, rfl, rfl⟩) (x = y)

theorem tracksPump_perform (hhead : d.tasks.head n = some item)
    (hkeep : d.KeepsPumps (.perform n epoch)) (h : d.TracksPump x) :
    (d.perform n epoch item).TracksPump x := by
  cases item with
  | reportAttached y v e => exact tracksPump_reportAttached hhead h
  | reportDetached y => exact tracksPump_reportDetached hhead h
  | perform effect =>
    cases effect with
    | send leg msg => exact tracksPump_idle hhead (by rintro ⟨⟩) not_mem_nil rfl rfl rfl rfl h
    | wakePump y => exact tracksPump_idle hhead (by rintro ⟨⟩) not_mem_nil rfl rfl rfl rfl h
    | attachView y s c v w =>
      simp only [perform, performItem]
      split
      · exact tracksPump_idle hhead (by rintro ⟨⟩) not_mem_nil rfl rfl rfl rfl h
      · split
        · exact tracksPump_idle hhead (by rintro ⟨⟩) not_mem_nil rfl rfl rfl rfl h
        · exact tracksPump_idle hhead (by rintro ⟨⟩)
            (fun hmem => by cases mem_singleton.mp hmem) rfl rfl rfl rfl h
    | detachView y s c v =>
      exact tracksPump_idle hhead (by rintro ⟨⟩)
        (fun hmem => by cases mem_singleton.mp hmem) rfl rfl rfl rfl h
    | startPump y =>
      by_cases hxy : x = y
      · subst hxy
        exact tracksPump_start hhead (hkeep x hhead) h
      · refine tracksPump_idle hhead (fun heq => by cases heq; exact hxy rfl) not_mem_nil
          ?_ ?_ ?_ rfl h <;> simp only [perform, performItem, startPump] <;> split
        · rfl
        · rfl
        · rfl
        · rw [lookup_insert, if_neg hxy]
        · rfl
        · rfl
    | stopPump y =>
      by_cases hxy : x = y
      · subst hxy
        exact tracksPump_stop hhead h
      · refine tracksPump_idle hhead (by rintro ⟨⟩) not_mem_nil rfl ?_ rfl rfl h
        exact (lookup_erase d.pumps y x).trans (if_neg hxy)

theorem credit_performItem (epoch : Option Nat) (item : Item) :
    (d.performItem epoch item).1.table.credit = d.table.credit := by
  cases item with
  | reportAttached y v e => exact credit_viewAttached d.table v e
  | reportDetached y => exact credit_viewDetached d.table
  | perform effect =>
    cases effect with
    | attachView y s c v w =>
      simp only [performItem]
      split
      · rfl
      · split <;> rfl
    | startPump y =>
      simp only [performItem, startPump]
      split <;> rfl
    | _ => rfl

theorem tracksPump_acceptLeg (hledgers : d.LedgersAccepted)
    (credit : Option (Nat × ReceiverCapacities × Nat)) (h : d.TracksPump x) :
    (d.acceptLeg credit).TracksPump x := by
  have hlive : ∀ c, d.table.LiveAccount c x → (d.acceptLeg credit).table.LiveAccount c x := by
    rintro c ⟨l, hl, hlive⟩
    cases credit with
    | none => exact ⟨l, hl, hlive⟩
    | some windows =>
      refine ⟨l, (lookup_insert _ _ _ _).trans ((if_neg ?_).trans hl), hlive⟩
      rintro rfl
      rw [hledgers _ (Nat.le_refl _)] at hl
      cases hl
  have hget : (d.acceptLeg credit).table.get x = d.table.get x := by
    cases credit <;> rfl
  rw [TracksPump] at h ⊢
  rw [hget]
  cases hr : d.table.get x with
  | none => exact .absent
  | some a =>
    rw [hr] at h
    exact h.congr ⟨rfl, rfl, rfl, rfl⟩ id id (fun _ _ _ _ => rfl) (fun _ _ => hlive _) fun _ => id

theorem tracksPump_pumpAsks {pump : Pump} (hpump : d.pumps.lookup y = some pump) (bytes : Nat)
    (cls : UnitClass) (h : d.TracksPump x) : (d.pumpAsks y pump bytes cls).TracksPump x := by
  have hlive : ∀ c, d.table.LiveAccount c x →
      (d.pumpAsks y pump bytes cls).table.LiveAccount c x := by
    intro c hc
    simp only [pumpAsks, ActivationTable.canAdmit]
    split
    · exact hc
    · next l hl =>
      exact (ActivationTable.KeepsCredit.insert (p := True) hl
        (live_canAdmit bytes cls)).live trivial hc
  have hget : (d.pumpAsks y pump bytes cls).table.get x = d.table.get x := by
    simp only [pumpAsks, ActivationTable.canAdmit]
    split <;> rfl
  have hanswer : ∀ c, d.table.LiveAccount c x → x = y → pump.connectionId = c →
      (d.pumpAsks y pump bytes cls).pumps = d.pumps := by
    rintro c ⟨l, hl, haccount⟩ rfl rfl
    have hsome := canAdmit_isSome bytes cls haccount
    simp only [pumpAsks, ActivationTable.canAdmit, hl]
    rw [if_neg]
    rw [isSome_iff_ne_none] at hsome
    simpa using hsome
  rw [TracksPump] at h ⊢
  rw [hget]
  cases hr : d.table.get x with
  | none => exact .absent
  | some a =>
    rw [hr] at h
    refine h.congr ⟨rfl, rfl, rfl, rfl⟩ id id (fun f hf hl hp => ?_) (fun _ _ => hlive _)
      fun _ => id
    by_cases hxy : x = y
    · rw [hxy, hpump] at hp
      rw [hanswer _ hl hxy (by rw [some.inj hp])]
    · simp only [pumpAsks]
      split
      · rw [lookup_modify, if_neg hxy]
      · rfl

theorem tracksPump_next {e : DoorEvent} {d' : Door} (hwell : d.table.WellIndexed)
    (h : d.LedgersAccepted ∧ ∀ x, d.TracksPump x) (hok : d.KeepsPumps e)
    (hnext : d.next e = some d') : d'.LedgersAccepted ∧ ∀ x, d'.TracksPump x := by
  obtain ⟨hledgers, h⟩ := h
  cases e with
  | call m op =>
    simp only [next] at hnext
    split at hnext
    · next hmay =>
      cases hnext
      exact ⟨ledgersAccepted_call hwell hmay hledgers,
        fun x => tracksPump_call hwell hmay hok (h x)⟩
    · cases hnext
  | acceptLeg credit =>
    cases hnext
    refine ⟨fun c hc => ?_, fun x => tracksPump_acceptLeg hledgers credit (h x)⟩
    have hc' : d.nextConnectionId + 1 ≤ c := hc
    cases credit with
    | none => exact hledgers c (Nat.le_of_succ_le hc')
    | some windows =>
      exact (lookup_insert _ _ _ _).trans ((if_neg (Nat.ne_of_gt hc')).trans
        (hledgers c (Nat.le_of_succ_le hc')))
  | perform n epoch =>
    obtain ⟨item, hhead, rfl⟩ := map_eq_some_iff.mp hnext
    refine ⟨fun c hc => ?_, fun x => tracksPump_perform hhead hok (h x)⟩
    have hnextId : (d.performItem epoch item).1.nextConnectionId = d.nextConnectionId := by
      cases item with
      | perform effect =>
        cases effect with
        | attachView y s c v w =>
          simp only [performItem]
          split
          · rfl
          · split <;> rfl
        | startPump y =>
          simp only [performItem, startPump]
          split <;> rfl
        | _ => rfl
      | _ => rfl
    have hc' : d.nextConnectionId ≤ c := hnextId ▸ hc
    exact (congrArg (·.lookup c) (credit_performItem epoch item)).trans (hledgers c hc')
  | pumpAsks y bytes cls =>
    obtain ⟨pump, hpump, rfl⟩ := map_eq_some_iff.mp hnext
    refine ⟨fun c hc => ?_, fun x => tracksPump_pumpAsks hpump bytes cls (h x)⟩
    have hnone := hledgers c hc
    simp only [pumpAsks, ActivationTable.canAdmit]
    split
    · exact hnone
    · next l hl =>
      exact (ActivationTable.KeepsCredit.insert (p := True) (x := y) hl
        (live_canAdmit bytes cls)).fresh hnone
  | sessionLeaves s =>
    cases hnext
    refine ⟨hledgers, fun x => ⟨(h x).framed, fun ha hrun => ?_⟩⟩
    obtain ⟨f, hf, hor⟩ := (h x).bound ha hrun
    exact ⟨f, hf, hor.imp_left (mem_cons_of_mem s)⟩

theorem tracksPump {cellBootId : String} (h : (machine cellBootId).Reaches KeepsPumps d) :
    d.LedgersAccepted ∧ ∀ x, d.TracksPump x := by
  refine Machine.Reaches.invariant_of
    (P := fun d : Door => d.LedgersAccepted ∧ ∀ x, d.TracksPump x) ?_
    (fun d e d' hr hd hok hnext => tracksPump_next (wellIndexed hr) hd hok hnext) h
  exact ⟨fun c _ => rfl, fun x => .absent⟩

/-- The activation's pump and its live credit account are on the frames connection
the activation names. -/
def PumpBound (d : Door) (x : ActivationId) (a : Activation) : Prop :=
  ∃ f, a.frames = some f ∧
    d.pumps.lookup x = some { connectionId := f.connectionId, ended := false } ∧
    d.table.LiveAccount f.connectionId x

def startedRun : List DoorEvent :=
  [.acceptLeg none, .acceptLeg (some (1, Sample.windows, 0)),
    .call Sample.moment (.attachControl (Sample.attach 1 "s1" "a" none)),
    .perform 0 none, .perform 0 (some 7), .perform 0 none, .perform 0 none,
    .call Sample.moment (.attachFrames (Sample.attachFrames 2 "s1" "a" 5)),
    .perform 1 none, .perform 1 none]

def keepsPumps (d : Door) : DoorEvent → Bool
  | .call _ (.attachFrames i) => (d.table.get i.activationId).all fun a => !a.pumpRunning
  | .perform _ _ => d.tasks.all fun task => task.all fun i =>
    match i with
    | .perform (.stopPump _) => false
    | _ => true
  | _ => true

theorem keepsPumps_sound (d : Door) (e : DoorEvent) (h : d.keepsPumps e = true) :
    d.KeepsPumps e := by
  cases e with
  | call m op =>
    cases op with
    | attachFrames i =>
      rintro ⟨a, trf, htarget, hrun, -⟩
      have ha := framesTarget_get htarget
      simp [keepsPumps, ha, hrun] at h
    | _ => trivial
  | perform n epoch =>
    rintro x - ⟨task, htask, before, after, rfl, -⟩
    have hall := List.all_eq_true.mp (List.all_eq_true.mp h _ htask)
    have hstop := hall (.perform (.stopPump x)) (by simp)
    cases hstop
  | _ => trivial

end Door
end VibeField.Tp
