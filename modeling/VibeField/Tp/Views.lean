import VibeField.Tp.Door

/-!
# The engine's views and the table's

An attached view is recorded only by the report of its performance, so what the
engine holds and what the table records differ while tasks are at work.  They
agree again once every task is done, in every run where an activation leaves the
table, or parks its view, only while no attach of it is under way, and asks for a
view only while no detach of it is.
-/

namespace VibeField.Tp

open List Option ActivationTable Activation

def Effect.movesView : Effect → Bool
  | .attachView _ _ _ _ _ => true
  | .detachView _ _ _ _ => true
  | _ => false

def Item.attaches (x : ActivationId) : Item → Bool
  | .perform (.attachView y _ _ _ _) => y == x
  | .reportAttached y _ _ => y == x
  | _ => false

def Item.detaches (x : ActivationId) : Item → Bool
  | .perform (.detachView y _ _ _) => y == x
  | .reportDetached y => y == x
  | _ => false

namespace Item

variable {x : ActivationId} {s : SessionId} {c : ClientId} {v : ViewId} {w : Bool} {e : Nat}

theorem attaches_view : (perform (.attachView x s c v w)).attaches x = true :=
  beq_self_eq_true x

theorem attaches_report : (reportAttached x v e).attaches x = true := beq_self_eq_true x

theorem detaches_view : (perform (.detachView x s c v)).detaches x = true := beq_self_eq_true x

theorem detaches_report : (reportDetached x).detaches x = true := beq_self_eq_true x

end Item

def Op.asksView (t : ActivationTable) (x : ActivationId) : Op → Bool
  | .attachControl i => i.activationId == x && i.opens t && i.msg.initialDemand == .live
  | .declareDemand leg msg =>
    msg.activationId == x &&
      (t.verbCaller leg msg.activationId msg.sessionId).any fun a =>
        !a.demandSeen msg && a.demand != .live && msg.demand == .live && a.view.isNone
  | _ => false

def Op.parksView (t : ActivationTable) (x : ActivationId) : Op → Bool
  | .declareDemand leg msg =>
    msg.activationId == x &&
      (t.verbCaller leg msg.activationId msg.sessionId).any fun a =>
        !a.demandSeen msg && msg.demand != .live && a.view.isSome
  | _ => false

def Op.drops (t : ActivationTable) (m : Moment) (x : ActivationId) (op : Op) : Bool :=
  (t.get x).any fun a => op.removes t m a

def Op.losesView (t : ActivationTable) (x : ActivationId) : Op → Bool
  | .attachControl i =>
    i.replaces t x && (t.get i.activationId).isSome && (t.get x).any fun a => a.view.isSome
  | _ => false

/-- What an operation the door calls does to the view of `x`: nothing, or one of
five moves, each with the effects on the engine it asks for. -/
inductive ViewMove (t : ActivationTable) (m : Moment) (op : Op) (x : ActivationId) :
    Option Activation → Option Activation → List Effect → Prop
  | absent : ViewMove t m op x none none []
  | keeps (a b : Activation) (hid : ActivationTable.SameIdentity a b) (hview : b.view = a.view) :
      ViewMove t m op x (some a) (some b) []
  | opens (a : Activation) (hview : a.view = none) : ViewMove t m op x none (some a) []
  | opensLive (a : Activation) (hx : a.activationId = x) (hview : a.view = none)
      (hasks : op.asksView t x = true) (w : Bool) :
      ViewMove t m op x none (some a) [a.attachesView w]
  | asks (a b : Activation) (hid : ActivationTable.SameIdentity a b) (hview : b.view = a.view)
      (hasks : op.asksView t x = true) (w : Bool) :
      ViewMove t m op x (some a) (some b) [a.attachesView w]
  | parks (a b : Activation) (hid : ActivationTable.SameIdentity a b) (hview : b.view = a.view)
      (v : ViewId × Nat) (hv : a.view = some v) (hparks : op.parksView t x = true) :
      ViewMove t m op x (some a) (some b) [a.detachesView v.1]
  | leaves (a : Activation) (hdrops : op.drops t m x = true) :
      ViewMove t m op x (some a) none (a.view.map fun v => a.detachesView v.1).toList

namespace ActivationTable

variable {t : ActivationTable} {m : Moment} {op : Op} {x : ActivationId}

def viewEffects (x : ActivationId) (es : List Effect) : List Effect :=
  (driven x es).filter Effect.movesView

theorem view_reattached (a : Activation) (leg : LegRef) (claims : AttachClaims) :
    (a.reattached m leg claims).view = a.view := by
  rw [Activation.reattached]
  split <;> rfl

theorem view_demanded (a : Activation) (msg : DeclareDemand) :
    (a.demanded m msg).view = a.view := by
  rw [Activation.demanded]
  split <;> rfl

theorem view_sceneApplied (a : Activation) (content : SceneContentStamp) :
    (a.sceneApplied m content).view = a.view := by
  simp only [Activation.sceneApplied]
  split <;> rfl

theorem view_presentationStopped (a : Activation) (reason : Reason) :
    (a.presentationStopped m reason).view = a.view := by
  rw [Activation.presentationStopped]
  split
  · rfl
  · split <;> rfl

theorem view_sessionExited (a : Activation) : (a.sessionExited m).view = a.view := by
  rw [Activation.sessionExited]
  split <;> rfl

theorem view_recomputed (a : Activation) : (recomputed m a).view = a.view := by
  rw [recomputed]
  split <;> rfl

theorem viewMove_demanded {a : Activation} {leg : LegRef} {msg : DeclareDemand}
    (hx : msg.activationId = x)
    (hcaller : t.verbCaller leg msg.activationId msg.sessionId = some a)
    (hfresh : a.demandSeen msg = false) :
    ViewMove t m (.declareDemand leg msg) x (some a) (some (a.demanded m msg))
      ((a.demandedEffects msg).filter Effect.movesView) := by
  have hid := SameIdentity.demanded a m msg
  have hview := view_demanded (m := m) a msg
  have hasks : a.demand ≠ .live → msg.demand = .live → a.view = none →
      (Op.declareDemand leg msg).asksView t x = true := fun hd hm hv => by
    simp [Op.asksView, hx ▸ hcaller, hx, hfresh, hd, hm, hv]
  have hparks : ∀ v, msg.demand ≠ .live → a.view = some v →
      (Op.declareDemand leg msg).parksView t x = true := fun v hm hv => by
    simp [Op.parksView, hx ▸ hcaller, hx, hfresh, hm, hv]
  have hkeeps : ViewMove t m (.declareDemand leg msg) x (some a) (some (a.demanded m msg)) [] :=
    .keeps a _ hid hview
  by_cases hm : msg.demand = .live
  · by_cases hd : a.demand = .live
    · rw [Activation.demandedEffects, hd, hm]
      exact hkeeps
    · have hes : a.demandedEffects msg =
          if a.view = none then [a.attachesView a.writesView] else [] := by
        rw [Activation.demandedEffects, hm]
        cases h : a.demand <;> first | rfl | exact absurd h hd
      rw [hes]
      split
      · next hv => exact .asks a _ hid hview (hasks hd hm hv) _
      · exact hkeeps
  · have hes : a.demandedEffects msg = (a.view.map fun v => a.detachesView v.1).toList := by
      rw [Activation.demandedEffects]
      cases h : msg.demand <;> cases a.demand <;> first | rfl | exact absurd h hm
    rw [hes]
    cases hv : a.view with
    | none => exact hkeeps
    | some v => exact .parks a _ hid hview v hv (hparks v hm hv)

theorem viewMove_apply {d : Door} (h : d.table.WellIndexed) (hmay : d.mayCall op = true)
    (hkeep : op.losesView d.table x = false) :
    ViewMove d.table m op x (d.table.get x) ((d.table.apply m op).1.get x)
      (viewEffects x (d.table.apply m op).2) := by
  have htouch := touch_apply h m op x
  rw [viewEffects]
  generalize hr : d.table.get x = r at htouch ⊢
  generalize (d.table.apply m op).1.get x = r' at htouch ⊢
  generalize driven x (d.table.apply m op).2 = es at htouch ⊢
  cases htouch with
  | kept =>
    cases r with
    | none => exact .absent
    | some a => exact .keeps a a (.rfl' a) rfl
  | opened i hx hopens =>
    rw [openedEffects]
    split
    · next hlive =>
      refine .opensLive _ hx rfl ?_ _
      simp only [Op.asksView, hx, hopens, beq_self_eq_true, Bool.and_self, Bool.true_and]
      exact beq_iff_eq.mpr hlive
    · exact .opens _ rfl
  | reattached i a => exact .keeps a _ (.reattached a m _ _) (view_reattached a _ _)
  | framed i a trf =>
    have hnone : (a.framedEffects i.leg
        (d.table.resolveSceneEpoch i.claims.sessionId i.sessionEpoch).2).filter
        Effect.movesView = [] := by
      rw [framedEffects]
      split <;> split <;> rfl
    rw [hnone]
    exact .keeps a _ (.framesAttached a _ _ _ _) rfl
  | viewed v epoch a => cases hmay
  | unviewed a => cases hmay
  | demanded leg msg a hx hcaller hfresh => exact viewMove_demanded hx hcaller hfresh
  | repaired leg msg a => exact .keeps a _ ⟨rfl, rfl, rfl, rfl⟩ rfl
  | acknowledged leg msg a => exact .keeps a _ (.sceneApplied a m _) (view_sceneApplied a _)
  | sent revision seed a => exact .keeps a _ ⟨rfl, rfl, rfl, rfl⟩ rfl
  | stopped a =>
    exact .keeps a _ (.presentationStopped a m _) (view_presentationStopped a _)
  | exited s a => exact .keeps a _ (.sessionExited a m) (view_sessionExited a)
  | recomputed a => exact .keeps a _ (.recomputed a m) (view_recomputed a)
  | removed _ a hremoves =>
    have hes : a.releasedEffects.filter Effect.movesView =
        (a.view.map fun v => a.detachesView v.1).toList := by
      rw [releasedEffects]
      cases a.view <;> split <;> rfl
    rw [hes]
    exact .leaves a (by rw [Op.drops, hr]; exact hremoves)
  | lost i a hreplaces htaken =>
    have hview : a.view = none := by
      simpa [Op.losesView, hreplaces, htaken, hr] using hkeep
    have hes : ([] : List Effect) = (a.view.map fun v => a.detachesView v.1).toList := by
      rw [hview]
      rfl
    rw [show ([] : List Effect).filter Effect.movesView = [] from rfl, hes]
    refine .leaves a ?_
    rw [Op.drops, hr]
    exact (by rw [h.ids hr]; exact hreplaces : i.replaces d.table a.activationId = true)

end ActivationTable

/-! ## The invariant of one activation's view -/

/-- What the record, the outstanding items and the engine say about the view of
`x`. -/
structure Tracked (x : ActivationId) (r : Option Activation) (out : Item → Prop)
    (views : List EngineView) (left : List SessionId) : Prop where
  apart : ∀ {i j}, out i → i.attaches x = true → out j → j.detaches x = true → False
  asked : ∀ {s c v w}, out (.perform (.attachView x s c v w)) →
    v = x ∧ ∃ a, r = some a ∧ a.sessionId = s ∧ a.clientId = c
  attached : ∀ {v e}, out (.reportAttached x v e) →
    v = x ∧ ∃ a, r = some a ∧ (a.sessionId ∈ left ∨ ⟨a.sessionId, a.clientId, x⟩ ∈ views)
  covered : ∀ {s c}, s ∉ left → ⟨s, c, x⟩ ∈ views →
    (∃ a, r = some a ∧ a.sessionId = s ∧ a.clientId = c ∧
      (a.view.isSome = true ∨ ∃ e, out (.reportAttached x x e))) ∨
    out (.perform (.detachView x s c x))
  recorded : ∀ {a v e}, r = some a → a.view = some (v, e) →
    v = x ∧ (a.sessionId ∈ left ∨ ⟨a.sessionId, a.clientId, x⟩ ∈ views ∨
      out (.reportDetached x))
  parked : ∀ {s c v}, out (.perform (.detachView x s c v)) →
    v = x ∧ ∀ a, r = some a → a.view.isSome = true → a.sessionId = s ∧ a.clientId = c
  detached : ∀ {a}, out (.reportDetached x) → r = some a → a.view.isSome = true →
    a.sessionId ∉ left → ⟨a.sessionId, a.clientId, x⟩ ∉ views

/-- An item of `x` other than the one performed stays, and the ones put in front
are new. -/
structure Performed (x : ActivationId) (out out' : Item → Prop) (item : Item)
    (front : List Item) : Prop where
  head : out item
  old : ∀ {i}, i.attaches x = true ∨ i.detaches x = true → out' i → out i ∨ i ∈ front
  stays : ∀ {i}, out i → i ≠ item → out' i
  fresh : ∀ {i}, i ∈ front → out' i

namespace Tracked

variable {x : ActivationId} {r r' : Option Activation} {out out' : Item → Prop}
  {views views' : List EngineView} {left : List SessionId} {t : ActivationTable} {m : Moment}
  {op : Op} {es : List Effect}

theorem congr (h : Tracked x r out views left)
    (hout : ∀ i, i.attaches x = true ∨ i.detaches x = true → (out' i ↔ out i))
    (hviews : ∀ s c, (⟨s, c, x⟩ : EngineView) ∈ views' ↔ ⟨s, c, x⟩ ∈ views) :
    Tracked x r out' views' left where
  apart hi hai hj hdj :=
    h.apart ((hout _ (.inl hai)).mp hi) hai ((hout _ (.inr hdj)).mp hj) hdj
  asked ho := h.asked ((hout _ (.inl Item.attaches_view)).mp ho)
  attached ho := by
    obtain ⟨hv, a, ha, hin⟩ := h.attached ((hout _ (.inl Item.attaches_report)).mp ho)
    exact ⟨hv, a, ha, hin.imp_right (hviews _ _).mpr⟩
  covered hs hv := by
    rcases h.covered hs ((hviews _ _).mp hv) with ⟨a, ha, has, hac, hor⟩ | hd
    · refine .inl ⟨a, ha, has, hac, hor.imp_right ?_⟩
      rintro ⟨e, he⟩
      exact ⟨e, (hout _ (.inl Item.attaches_report)).mpr he⟩
    · exact .inr ((hout _ (.inr Item.detaches_view)).mpr hd)
  recorded ha hv := by
    obtain ⟨hvx, hor⟩ := h.recorded ha hv
    exact ⟨hvx, hor.imp_right fun ho => ho.imp (hviews _ _).mpr
      (hout _ (.inr Item.detaches_report)).mpr⟩
  parked ho := h.parked ((hout _ (.inr Item.detaches_view)).mp ho)
  detached ho ha hv hs := fun hin =>
    h.detached ((hout _ (.inr Item.detaches_report)).mp ho) ha hv hs ((hviews _ _).mp hin)

theorem start (x : ActivationId) (left : List SessionId) :
    Tracked x none (fun _ => False) [] left where
  apart h := h.elim
  asked h := h.elim
  attached h := h.elim
  covered _ h := by cases h
  recorded h := by cases h
  parked h := h.elim
  detached h := h.elim

theorem same_view {a b : Activation} (hid : ActivationTable.SameIdentity a b)
    (hview : b.view = a.view) (h : Tracked x (some a) out views left) :
    Tracked x (some b) out views left where
  apart := h.apart
  asked ho := by
    obtain ⟨hv, c, hc, hcs, hcc⟩ := h.asked ho
    cases hc
    exact ⟨hv, b, rfl, hid.sessionId.trans hcs, hid.clientId.trans hcc⟩
  attached ho := by
    obtain ⟨hv, c, hc, hin⟩ := h.attached ho
    cases hc
    refine ⟨hv, b, rfl, ?_⟩
    rw [hid.sessionId, hid.clientId]
    exact hin
  covered hs hv := by
    rcases h.covered hs hv with ⟨c, hc, hcs, hcc, hor⟩ | hd
    · cases hc
      refine .inl ⟨b, rfl, hid.sessionId.trans hcs, hid.clientId.trans hcc, ?_⟩
      rw [hview]
      exact hor
    · exact .inr hd
  recorded {c v e} hc hv := by
    cases hc
    rw [hview] at hv
    rw [hid.sessionId, hid.clientId]
    exact h.recorded rfl hv
  parked ho := by
    refine ⟨(h.parked ho).1, fun c hc hsome => ?_⟩
    cases hc
    rw [hview] at hsome
    rw [hid.sessionId, hid.clientId]
    exact (h.parked ho).2 a rfl hsome
  detached {c} ho hc hsome := by
    cases hc
    rw [hview] at hsome
    rw [hid.sessionId, hid.clientId]
    exact h.detached ho rfl hsome

variable {a : Activation}

theorem opened (hview : a.view = none) (h : Tracked x none out views left) :
    Tracked x (some a) out views left where
  apart := h.apart
  asked ho := by obtain ⟨-, c, hc, -⟩ := h.asked ho; cases hc
  attached ho := by obtain ⟨-, c, hc, -⟩ := h.attached ho; cases hc
  covered hs hv := by
    rcases h.covered hs hv with ⟨c, hc, -⟩ | hd
    · cases hc
    · exact .inr hd
  recorded hc hv := by
    cases hc
    rw [hview] at hv
    cases hv
  parked ho := by
    refine ⟨(h.parked ho).1, fun c hc hsome => ?_⟩
    cases hc
    rw [hview] at hsome
    cases hsome
  detached {c} ho hc hsome := by
    cases hc
    rw [hview] at hsome
    cases hsome

theorem asks (hx : a.activationId = x) {w : Bool}
    (hquiet : ∀ j, out j → j.detaches x = true → False) (h : Tracked x (some a) out views left)
    (hout : ∀ i, i.attaches x = true ∨ i.detaches x = true →
      (out' i ↔ out i ∨ i = .perform (a.attachesView w))) :
    Tracked x (some a) out' views left := by
  have hold : ∀ {j}, out' j → j.detaches x = true → out j := fun {j} hj hd => by
    rcases (hout j (.inr hd)).mp hj with ho | rfl
    · exact ho
    · cases hd
  have hreport : ∀ {v e}, out' (.reportAttached x v e) ↔ out (.reportAttached x v e) := by
    intro v e
    rw [hout _ (.inl Item.attaches_report)]
    exact ⟨fun ho => ho.resolve_right (by rintro ⟨⟩), .inl⟩
  refine
    { apart := fun {i j} _ _ hj hd => hquiet j (hold hj hd) hd
      asked := fun {s c v w'} ho => ?_
      attached := fun {v e} ho => h.attached (hreport.mp ho)
      covered := fun {s c} hs hv => ?_
      recorded := fun {b v e} hb hv => ?_
      parked := fun {s c v} ho => (hquiet _ (hold ho Item.detaches_view) Item.detaches_view).elim
      detached := fun {b} ho =>
        (hquiet _ (hold ho Item.detaches_report) Item.detaches_report).elim }
  · rcases (hout _ (.inl Item.attaches_view)).mp ho with ho | heq
    · exact h.asked ho
    · cases heq
      exact ⟨hx, a, rfl, rfl, rfl⟩
  · rcases h.covered hs hv with ⟨b, hb, hbs, hbc, hor⟩ | hd
    · exact .inl ⟨b, hb, hbs, hbc, hor.imp_right fun ⟨e, he⟩ => ⟨e, hreport.mpr he⟩⟩
    · exact (hquiet _ hd Item.detaches_view).elim
  · obtain ⟨hvx, hor⟩ := h.recorded hb hv
    refine ⟨hvx, hor.imp_right fun ho => ho.imp_right fun hd => ?_⟩
    exact (hquiet _ hd Item.detaches_report).elim

theorem detaches (hx : a.activationId = x) {v : ViewId × Nat}
    (hv : a.view = some v) (hr' : r' = some a ∨ r' = none)
    (hquiet : ∀ j, out j → j.attaches x = true → False) (h : Tracked x (some a) out views left)
    (hout : ∀ i, i.attaches x = true ∨ i.detaches x = true →
      (out' i ↔ out i ∨ i = .perform (a.detachesView v.1))) :
    Tracked x r' out' views left := by
  have hvx : v.1 = x := (h.recorded rfl hv).1
  have hold : ∀ {j}, out' j → j.attaches x = true → False := fun {j} hj ha => by
    rcases (hout j (.inl ha)).mp hj with ho | rfl
    · exact hquiet j ho ha
    · cases ha
  have hreport : out' (.reportDetached x) ↔ out (.reportDetached x) := by
    rw [hout _ (.inr Item.detaches_report)]
    exact ⟨fun ho => ho.resolve_right (by rintro ⟨⟩), .inl⟩
  have hasked : out' (.perform (.detachView x a.sessionId a.clientId x)) := by
    refine (hout _ (.inr Item.detaches_view)).mpr (.inr ?_)
    rw [detachesView, hx, hvx]
  have hsame : ∀ {b}, r' = some b → b = a := fun {b} hb => by
    rcases hr' with rfl | rfl
    · exact (some.inj hb).symm
    · cases hb
  refine
    { apart := fun {i j} hi hai _ _ => hold hi hai
      asked := fun ho => (hold ho Item.attaches_view).elim
      attached := fun ho => (hold ho Item.attaches_report).elim
      covered := fun {s c} hs hin => .inr ?_
      recorded := fun {b v' e} hb hv' => ?_
      parked := fun {s c v'} ho => ?_
      detached := fun {b} ho hb => by
        rw [hsame hb]
        exact h.detached (hreport.mp ho) rfl }
  · rcases h.covered hs hin with ⟨b, hb, rfl, rfl, -⟩ | hd
    · obtain rfl : a = b := some.inj hb
      exact hasked
    · exact (hout _ (.inr Item.detaches_view)).mpr (.inl hd)
  · rw [hsame hb] at hv' ⊢
    obtain ⟨hvx', hor⟩ := h.recorded rfl hv'
    exact ⟨hvx', hor.imp_right fun ho => ho.imp_right hreport.mpr⟩
  · rcases (hout _ (.inr Item.detaches_view)).mp ho with ho | heq
    · refine ⟨(h.parked ho).1, fun b hb hsome => ?_⟩
      rw [hsame hb] at hsome ⊢
      exact (h.parked ho).2 a rfl hsome
    · cases heq
      exact ⟨hvx, fun b hb _ => by rw [hsame hb]; exact ⟨rfl, rfl⟩⟩

theorem leaves (hview : a.view = none)
    (hquiet : ∀ j, out j → j.attaches x = true → False) (h : Tracked x (some a) out views left) :
    Tracked x none out views left where
  apart := h.apart
  asked ho := (hquiet _ ho Item.attaches_view).elim
  attached ho := (hquiet _ ho Item.attaches_report).elim
  covered hs hin := by
    rcases h.covered hs hin with ⟨b, hb, -, -, hsome | ⟨e, he⟩⟩ | hd
    · cases hb
      rw [hview] at hsome
      cases hsome
    · exact (hquiet _ he Item.attaches_report).elim
    · exact .inr hd
  recorded hb := by cases hb
  parked ho := ⟨(h.parked ho).1, fun b hb => by cases hb⟩
  detached _ hb := by cases hb

/-! ## Performing -/

theorem engineAttached {s : SessionId} {c : ClientId} {v : ViewId} {w : Bool} {e : Nat}
    (h : Tracked x r out views left)
    (hp : Performed x out out' (.perform (.attachView x s c v w)) [.reportAttached x v e])
    (hviews : ∀ s' c', (⟨s', c', x⟩ : EngineView) ∈ views' ↔
      ⟨s', c', x⟩ ∈ views ∨ (s' = s ∧ c' = c)) :
    Tracked x r out' views' left := by
  obtain ⟨rfl, a, rfl, rfl, rfl⟩ := h.asked hp.head
  have hquiet : ∀ {j}, out' j → j.detaches v = true → False := fun {j} hj hd => by
    rcases hp.old (.inr hd) hj with ho | hf
    · exact h.apart hp.head Item.attaches_view ho hd
    · rw [mem_singleton.mp hf] at hd
      cases hd
  have hreports : ∀ {v' e'}, out (.reportAttached v v' e') → out' (.reportAttached v v' e') :=
    fun ho => hp.stays ho (by rintro ⟨⟩)
  refine
    { apart := fun {i j} _ _ hj hd => hquiet hj hd
      asked := fun ho => ?_
      attached := fun {v' e'} ho => ?_
      covered := fun {s' c'} hs hin => .inl ?_
      recorded := fun {b v' e'} hb hv => ?_
      parked := fun ho => (hquiet ho Item.detaches_view).elim
      detached := fun ho => (hquiet ho Item.detaches_report).elim }
  · rcases hp.old (.inl Item.attaches_view) ho with ho | hf
    · exact h.asked ho
    · cases mem_singleton.mp hf
  · rcases hp.old (.inl Item.attaches_report) ho with ho | hf
    · obtain ⟨hv, b, hb, hin⟩ := h.attached ho
      exact ⟨hv, b, hb, hin.imp_right fun hin => (hviews _ _).mpr (.inl hin)⟩
    · cases mem_singleton.mp hf
      exact ⟨rfl, a, rfl, .inr ((hviews _ _).mpr (.inr ⟨rfl, rfl⟩))⟩
  · rcases (hviews s' c').mp hin with hin | ⟨rfl, rfl⟩
    · rcases h.covered hs hin with ⟨b, hb, hbs, hbc, hor⟩ | hd
      · exact ⟨b, hb, hbs, hbc, hor.imp_right fun ⟨e', he⟩ => ⟨e', hreports he⟩⟩
      · exact (h.apart hp.head Item.attaches_view hd Item.detaches_view).elim
    · exact ⟨a, rfl, rfl, rfl, .inr ⟨e, hp.fresh (mem_singleton.mpr rfl)⟩⟩
  · obtain ⟨hvx, hor⟩ := h.recorded hb hv
    refine ⟨hvx, hor.imp_right fun ho => .inl ((hviews _ _).mpr (.inl ?_))⟩
    exact ho.resolve_right fun hd => h.apart hp.head Item.attaches_view hd Item.detaches_report

theorem dropped {item : Item} (h : Tracked x r out views left)
    (hitem : ∀ v e, item ≠ .reportAttached x v e)
    (hdetach : item.detaches x = false) (hp : Performed x out out' item []) :
    Tracked x r out' views left := by
  have hold : ∀ {i}, i.attaches x = true ∨ i.detaches x = true → out' i → out i :=
    fun hi ho => (hp.old hi ho).resolve_right (not_mem_nil)
  have hkeep : ∀ {i}, i.detaches x = true → out i → out' i := fun hd ho =>
    hp.stays ho (by rintro rfl; rw [hdetach] at hd; cases hd)
  exact
    { apart := fun hi hai hj hdj => h.apart (hold (.inl hai) hi) hai (hold (.inr hdj) hj) hdj
      asked := fun ho => h.asked (hold (.inl Item.attaches_view) ho)
      attached := fun ho => h.attached (hold (.inl Item.attaches_report) ho)
      covered := fun hs hin => (h.covered hs hin).imp
        (fun ⟨a, ha, has, hac, hor⟩ => ⟨a, ha, has, hac, hor.imp_right fun ⟨e, he⟩ =>
          ⟨e, hp.stays he (hitem _ _).symm⟩⟩)
        (hkeep Item.detaches_view)
      recorded := fun ha hv => ⟨(h.recorded ha hv).1, (h.recorded ha hv).2.imp_right fun ho =>
        ho.imp_right (hkeep Item.detaches_report)⟩
      parked := fun ho => h.parked (hold (.inr Item.detaches_view) ho)
      detached := fun ho => h.detached (hold (.inr Item.detaches_report) ho) }

theorem reportedAttached {v : ViewId} {e : Nat}
    (h : Tracked x (some a) out views left)
    (hp : Performed x out out' (.reportAttached x v e) []) :
    Tracked x (some (a.viewAttached v e)) out' views left := by
  obtain ⟨rfl, b, hb, hin⟩ := h.attached hp.head
  obtain rfl : a = b := some.inj hb
  have hold : ∀ {i}, i.attaches v = true ∨ i.detaches v = true → out' i → out i :=
    fun hi ho => (hp.old hi ho).resolve_right (not_mem_nil)
  have hquiet : ∀ {j}, out' j → j.detaches v = true → False := fun hj hd =>
    h.apart hp.head Item.attaches_report (hold (.inr hd) hj) hd
  refine
    { apart := fun _ _ hj hd => hquiet hj hd
      asked := fun ho => ?_
      attached := fun ho => ?_
      covered := fun hs hv => .inl ?_
      recorded := fun {b v' e'} hb hv => ?_
      parked := fun ho => (hquiet ho Item.detaches_view).elim
      detached := fun ho => (hquiet ho Item.detaches_report).elim }
  · obtain ⟨hv, b, hb, hbs, hbc⟩ := h.asked (hold (.inl Item.attaches_view) ho)
    cases hb
    exact ⟨hv, _, rfl, hbs, hbc⟩
  · obtain ⟨hv, b, hb, hin⟩ := h.attached (hold (.inl Item.attaches_report) ho)
    cases hb
    exact ⟨hv, _, rfl, hin⟩
  · rcases h.covered hs hv with ⟨b, hb, hbs, hbc, -⟩ | hd
    · cases hb
      exact ⟨_, rfl, hbs, hbc, .inl rfl⟩
    · exact (h.apart hp.head Item.attaches_report hd Item.detaches_view).elim
  · cases hb
    cases hv
    exact ⟨rfl, hin.imp_right .inl⟩

theorem engineDetached {s : SessionId} {c : ClientId} {v : ViewId}
    (h : Tracked x r out views left)
    (hp : Performed x out out' (.perform (.detachView x s c v)) [.reportDetached x])
    (hviews : ∀ s' c', (⟨s', c', x⟩ : EngineView) ∈ views' ↔
      ⟨s', c', x⟩ ∈ views ∧ (s ∈ left ∨ ¬ (s' = s ∧ c' = c))) :
    Tracked x r out' views' left := by
  obtain ⟨rfl, hown⟩ := h.parked hp.head
  have hquiet : ∀ {i}, out' i → i.attaches v = true → False := fun {i} hi ha => by
    rcases hp.old (.inl ha) hi with ho | hf
    · exact h.apart ho ha hp.head Item.detaches_view
    · rw [mem_singleton.mp hf] at ha
      cases ha
  refine
    { apart := fun hi ha _ _ => hquiet hi ha
      asked := fun ho => (hquiet ho Item.attaches_view).elim
      attached := fun ho => (hquiet ho Item.attaches_report).elim
      covered := fun {s' c'} hs hin => ?_
      recorded := fun {b v' e'} hb hv => ?_
      parked := fun {s' c' v'} ho => ?_
      detached := fun {b} _ hb hsome hs hin => ?_ }
  · obtain ⟨hin, hkept⟩ := (hviews s' c').mp hin
    rcases h.covered hs hin with ⟨b, hb, hbs, hbc, hsome | ⟨e, he⟩⟩ | hd
    · exact .inl ⟨b, hb, hbs, hbc, .inl hsome⟩
    · exact (h.apart he Item.attaches_report hp.head Item.detaches_view).elim
    · refine .inr (hp.stays hd ?_)
      -- the performed detach is of another view, or its session left
      rintro heq
      cases heq
      rcases hkept with hleft | hne
      · exact hs hleft
      · exact hne ⟨rfl, rfl⟩
  · exact ⟨(h.recorded hb hv).1, .inr (.inr (hp.fresh (mem_singleton.mpr rfl)))⟩
  · rcases hp.old (.inr Item.detaches_view) ho with ho | hf
    · exact h.parked ho
    · cases mem_singleton.mp hf
  · obtain ⟨-, hkept⟩ := (hviews _ _).mp hin
    obtain ⟨rfl, rfl⟩ := hown b hb hsome
    rcases hkept with hleft | hne
    · exact hs hleft
    · exact hne ⟨rfl, rfl⟩

theorem reportedDetached (h : Tracked x r out views left)
    (hp : Performed x out out' (.reportDetached x) []) :
    Tracked x (r.map Activation.viewDetached) out' views left := by
  have hold : ∀ {i}, i.attaches x = true ∨ i.detaches x = true → out' i → out i :=
    fun hi ho => (hp.old hi ho).resolve_right (not_mem_nil)
  have hquiet : ∀ {i}, out i → i.attaches x = true → False := fun hi ha =>
    h.apart hi ha hp.head Item.detaches_report
  have hnone : ∀ {b}, r.map Activation.viewDetached = some b → b.view = none := fun {b} hb => by
    obtain ⟨a, -, rfl⟩ := map_eq_some_iff.mp hb
    rfl
  refine
    { apart := fun hi ha _ _ => hquiet (hold (.inl ha) hi) ha
      asked := fun ho => (hquiet (hold (.inl Item.attaches_view) ho) Item.attaches_view).elim
      attached := fun ho =>
        (hquiet (hold (.inl Item.attaches_report) ho) Item.attaches_report).elim
      covered := fun {s c} hs hin => .inr ?_
      recorded := fun {b v e} hb hv => by rw [hnone hb] at hv; cases hv
      parked := fun {s c v} ho => ⟨(h.parked (hold (.inr Item.detaches_view) ho)).1,
        fun b hb hsome => by rw [hnone hb] at hsome; cases hsome⟩
      detached := fun {b} _ hb hsome => by rw [hnone hb] at hsome; cases hsome }
  rcases h.covered hs hin with ⟨b, hb, rfl, rfl, hsome | ⟨e, he⟩⟩ | hd
  · exact absurd hin (h.detached hp.head hb hsome hs)
  · exact (hquiet he Item.attaches_report).elim
  · exact hp.stays hd (by rintro ⟨⟩)

end Tracked

/-! ## Every run that keeps views apart -/

namespace Door

variable {d : Door} {x y : ActivationId}

/-- An attach of `x`'s view is under way. -/
def Attaching (d : Door) (x : ActivationId) : Prop :=
  ∃ i, d.Outstanding i ∧ i.attaches x = true

/-- A detach of `x`'s view is under way. -/
def Detaching (d : Door) (x : ActivationId) : Prop :=
  ∃ i, d.Outstanding i ∧ i.detaches x = true

/-- The call crosses no engine call of `x`'s view under way, and loses no view. -/
structure KeepsViewOf (d : Door) (m : Moment) (op : Op) (x : ActivationId) : Prop where
  asks : op.asksView d.table x = true → ¬ d.Detaching x
  gives : op.parksView d.table x = true ∨ op.drops d.table m x = true → ¬ d.Attaching x
  keeps : op.losesView d.table x = false

def KeepsViews (d : Door) : DoorEvent → Prop
  | .call m op => ∀ x, d.KeepsViewOf m op x
  | _ => True

def TracksView (d : Door) (x : ActivationId) : Prop :=
  Tracked x (d.table.get x) d.Outstanding d.views d.left

theorem mem_viewEffects {es : List Effect} {i : Item}
    (hi : i.attaches x = true ∨ i.detaches x = true) :
    i ∈ es.map .perform ↔ ∃ e ∈ viewEffects x es, i = .perform e := by
  constructor
  · intro hmem
    obtain ⟨e, he, rfl⟩ := List.mem_map.mp hmem
    refine ⟨e, mem_filter.mpr ⟨mem_filter.mpr ⟨he, ?_⟩, ?_⟩, rfl⟩
    · cases e <;> simp_all [Item.attaches, Item.detaches, Effect.drives]
    · cases e <;> simp_all [Item.attaches, Item.detaches, Effect.movesView]
  · rintro ⟨e, he, rfl⟩
    exact List.mem_map.mpr ⟨e, (mem_filter.mp (mem_filter.mp he).1).1, rfl⟩

theorem tracksView_call (hwell : d.table.WellIndexed) {m : Moment} {op : Op}
    (hmay : d.mayCall op = true) (hkeep : d.KeepsViewOf m op x) (h : d.TracksView x) :
    (d.call m op).TracksView x := by
  have hmove := viewMove_apply (m := m) hwell hmay hkeep.keeps
  have hout : ∀ i, i.attaches x = true ∨ i.detaches x = true →
      ((d.call m op).Outstanding i ↔ d.Outstanding i ∨
        ∃ e ∈ viewEffects x (d.table.apply m op).2, i = .perform e) := by
    intro i hi
    rw [← mem_viewEffects hi]
    exact Tasks.outstanding_spawn
  have hgives : (op.parksView d.table x = true ∨ op.drops d.table m x = true) →
      ∀ j, d.Outstanding j → j.attaches x = true → False :=
    fun hop j hj ha => hkeep.gives hop ⟨j, hj, ha⟩
  have hasks : op.asksView d.table x = true →
      ∀ j, d.Outstanding j → j.detaches x = true → False :=
    fun hop j hj hd => hkeep.asks hop ⟨j, hj, hd⟩
  rw [TracksView] at h ⊢
  have hids : ∀ {a}, d.table.get x = some a → a.activationId = x := hwell.ids
  rw [table_call]
  generalize d.table.get x = r at hmove h hids
  generalize (d.table.apply m op).1.get x = r' at hmove ⊢
  generalize viewEffects x (d.table.apply m op).2 = es at hmove hout
  have hquiet : es = [] → ∀ i, i.attaches x = true ∨ i.detaches x = true →
      ((d.call m op).Outstanding i ↔ d.Outstanding i) := by
    rintro rfl i hi
    rw [hout i hi]
    exact ⟨fun ho => ho.resolve_right (by rintro ⟨e, he, -⟩; cases he), .inl⟩
  have hone : ∀ e, es = [e] → ∀ i, i.attaches x = true ∨ i.detaches x = true →
      ((d.call m op).Outstanding i ↔ d.Outstanding i ∨ i = .perform e) := by
    rintro e rfl i hi
    rw [hout i hi]
    simp
  cases hmove with
  | absent => exact h.congr (hquiet rfl) fun _ _ => Iff.rfl
  | keeps a b hid hview => exact (h.same_view hid hview).congr (hquiet rfl) fun _ _ => Iff.rfl
  | opens a hview => exact (h.opened hview).congr (hquiet rfl) fun _ _ => Iff.rfl
  | opensLive a hx hview hask w =>
    exact (h.opened hview).asks hx (hasks hask) (hone _ rfl)
  | asks a b hid hview hask w =>
    exact (h.asks (hids rfl) (hasks hask) (hone _ rfl)).same_view hid hview
  | parks a b hid hview v hv hpark =>
    exact (h.detaches (hids rfl) hv (.inl rfl) (hgives (.inl hpark)) (hone _ rfl)).same_view
      hid hview
  | leaves a hdrops =>
    cases hv : a.view with
    | none =>
      refine (h.leaves hv (hgives (.inr hdrops))).congr (hquiet ?_) fun _ _ => Iff.rfl
      rw [hv]
      rfl
    | some v =>
      refine h.detaches (hids rfl) hv (.inr rfl) (hgives (.inr hdrops)) (hone _ ?_)
      rw [hv]
      rfl

theorem performed {n : Nat} {item : Item} {front : List Item} {es : List Effect} {d' : Door}
    (hhead : d.tasks.head n = some item) (hes : ∀ e ∈ es, e.movesView = false)
    (htasks : d'.tasks = d.tasks.advance n front (es.map .perform)) :
    Performed x d.Outstanding d'.Outstanding item front where
  head := Tasks.outstanding_head hhead
  old {i} hi ho := by
    rw [Outstanding, htasks] at ho
    rcases Tasks.outstanding_advance hhead ho with ho | hf | hf
    · exact .inl ho
    · exact .inr hf
    · obtain ⟨e, he, rfl⟩ := List.mem_map.mp hf
      have hmoves := hes e he
      cases e <;> simp_all [Item.attaches, Item.detaches, Effect.movesView]
  stays ho hne := by
    rw [Outstanding, htasks]
    exact Tasks.outstanding_advance_of_ne hhead ho hne
  fresh hi := by
    rw [Outstanding, htasks]
    exact Tasks.outstanding_front hhead hi

theorem performed_other {out out' : Item → Prop} {item : Item} {front : List Item}
    (hp : Performed x out out' item front)
    (hitem : item.attaches x = false ∧ item.detaches x = false)
    (hfront : ∀ i ∈ front, i.attaches x = false ∧ i.detaches x = false) :
    ∀ i, i.attaches x = true ∨ i.detaches x = true → (out' i ↔ out i) := by
  intro i hi
  have hnot : ∀ j : Item, j.attaches x = false ∧ j.detaches x = false → i ≠ j := by
    rintro j ⟨ha, hd⟩ rfl
    rcases hi with hi | hi
    · rw [ha] at hi; cases hi
    · rw [hd] at hi; cases hi
  exact ⟨fun ho => (hp.old hi ho).resolve_right fun hf => hnot i (hfront i hf) rfl,
    fun ho => hp.stays ho (hnot item hitem)⟩

theorem movesView_viewAttached (t : ActivationTable) (v : ViewId) (epoch : Nat) :
    ∀ e ∈ (t.viewAttached y v epoch).2, e.movesView = false := by
  intro e he
  rw [ActivationTable.viewAttached] at he
  split at he
  · cases he
  · simp only at he
    split at he <;> rw [mem_singleton.mp he] <;> rfl

theorem movesView_viewDetached (t : ActivationTable) :
    ∀ e ∈ (t.viewDetached y).2, e.movesView = false := by
  intro e he
  have hnone : ∀ x, e.drives x = false := fun x => by
    by_contra hdrives
    have hmem : e ∈ driven x (t.viewDetached y).2 :=
      mem_filter.mpr ⟨he, by simpa using hdrives⟩
    rw [driven_viewDetached] at hmem
    cases hmem
  cases e with
  | attachView z _ _ _ _ => exact absurd (hnone z) (by simp [Effect.drives])
  | detachView z _ _ _ => exact absurd (hnone z) (by simp [Effect.drives])
  | _ => rfl

theorem mem_attachEngineView (v u : EngineView) :
    u ∈ (d.attachEngineView v).views ↔ u ∈ d.views ∨ u = v := by
  simp only [attachEngineView]
  split
  · next hv => exact ⟨.inl, fun h => h.elim id fun he => he ▸ hv⟩
  · rw [mem_cons, or_comm]

theorem mem_detachEngineView (v u : EngineView) :
    u ∈ (d.detachEngineView v).views ↔ u ∈ d.views ∧ (v.sessionId ∈ d.left ∨ u ≠ v) := by
  simp only [detachEngineView]
  split
  · next hleft => exact ⟨fun h => ⟨h, .inl hleft⟩, fun h => h.1⟩
  · next hleft =>
    rw [mem_filter, decide_eq_true_iff]
    exact ⟨fun h => ⟨h.1, .inr h.2⟩, fun h => ⟨h.1, h.2.resolve_left hleft⟩⟩

def attachedBy (d : Door) (n : Nat) (y : ActivationId) (e : Nat) (v : EngineView) : Door :=
  { d.attachEngineView v with tasks := d.tasks.advance n [.reportAttached y v.viewId e] [] }

def detachedBy (d : Door) (n : Nat) (y : ActivationId) (v : EngineView) : Door :=
  { d.detachEngineView v with tasks := d.tasks.advance n [.reportDetached y] [] }

section Perform

variable {n : Nat} {item : Item} {epoch : Option Nat} {v : ViewId}

theorem tracksView_idle (hhead : d.tasks.head n = some item) (h : ∀ x, d.TracksView x)
    (hreport : ∀ x v e, item ≠ .reportAttached x v e) (hdetach : ∀ x, item.detaches x = false)
    {d' : Door} (htable : d'.table = d.table) (hviews : d'.views = d.views)
    (hleft : d'.left = d.left) (htasks : d'.tasks = d.tasks.advance n [] []) (x : ActivationId) :
    d'.TracksView x := by
  rw [TracksView, htable, hviews, hleft]
  exact (h x).dropped (fun v e => hreport x v e) (hdetach x)
    (performed hhead (fun _ he => absurd he not_mem_nil) htasks)

theorem tracksView_attachView {s : SessionId} {c : ClientId} {w : Bool}
    (hhead : d.tasks.head n = some (.perform (.attachView y s c v w)))
    (h : ∀ x, d.TracksView x) (x : ActivationId) :
    (d.perform n epoch (.perform (.attachView y s c v w))).TracksView x := by
  have hasked := (h y).asked (Tasks.outstanding_head hhead)
  have hidle : ∀ {d' : Door}, d'.table = d.table → d'.views = d.views → d'.left = d.left →
      d'.tasks = d.tasks.advance n [] [] → d'.TracksView x := fun ht hv hl hts =>
    tracksView_idle hhead h (by rintro _ _ _ ⟨⟩) (fun _ => rfl) ht hv hl hts x
  simp only [perform, performItem]
  split
  · exact hidle rfl rfl rfl rfl
  · split
    · exact hidle rfl rfl rfl rfl
    · next e =>
      have hp : Performed x d.Outstanding
          (d.attachedBy n y e { sessionId := s, clientId := c, viewId := v }).Outstanding
          (.perform (.attachView y s c v w)) [.reportAttached y v e] :=
        performed hhead (fun _ he => absurd he not_mem_nil) rfl
      by_cases hxy : y = x
      · subst hxy
        refine Tracked.engineAttached (h y) hp fun s' c' => ?_
        rw [mem_attachEngineView, hasked.1]
        simp
      · have hne : (y == x) = false := beq_eq_false_iff_ne.mpr hxy
        refine (h x).congr (performed_other hp ⟨hne, rfl⟩ ?_) fun s' c' => ?_
        · intro i hi
          rw [mem_singleton.mp hi]
          exact ⟨hne, rfl⟩
        · rw [mem_attachEngineView, hasked.1]
          simp [Ne.symm hxy]

theorem tracksView_detachView {s : SessionId} {c : ClientId}
    (hhead : d.tasks.head n = some (.perform (.detachView y s c v)))
    (h : ∀ x, d.TracksView x) (x : ActivationId) :
    (d.perform n epoch (.perform (.detachView y s c v))).TracksView x := by
  have hparked := (h y).parked (Tasks.outstanding_head hhead)
  have hp : Performed x d.Outstanding
      (d.detachedBy n y { sessionId := s, clientId := c, viewId := v }).Outstanding
      (.perform (.detachView y s c v)) [.reportDetached y] :=
    performed hhead (fun _ he => absurd he not_mem_nil) rfl
  simp only [perform, performItem]
  by_cases hxy : y = x
  · subst hxy
    refine Tracked.engineDetached (h y) hp fun s' c' => ?_
    rw [mem_detachEngineView, hparked.1]
    simp [detachEngineView]
  · have hne : (y == x) = false := beq_eq_false_iff_ne.mpr hxy
    refine (h x).congr (performed_other hp ⟨rfl, hne⟩ ?_) fun s' c' => ?_
    · intro i hi
      rw [mem_singleton.mp hi]
      exact ⟨rfl, hne⟩
    · rw [mem_detachEngineView, hparked.1]
      simp [Ne.symm hxy]

theorem tracksView_reportAttached {e : Nat}
    (hhead : d.tasks.head n = some (.reportAttached y v e)) (h : ∀ x, d.TracksView x)
    (x : ActivationId) : (d.perform n epoch (.reportAttached y v e)).TracksView x := by
  obtain ⟨-, a, ha, -⟩ := (h y).attached (Tasks.outstanding_head hhead)
  have hp : Performed x d.Outstanding (d.perform n epoch (.reportAttached y v e)).Outstanding
      (.reportAttached y v e) [] :=
    performed hhead (movesView_viewAttached d.table v e) rfl
  have hget : (d.perform n epoch (.reportAttached y v e)).table.get x =
      if x = y then (d.table.get x).map (·.viewAttached v e) else d.table.get x :=
    get_viewAttached d.table y x v e
  by_cases hxy : y = x
  · subst hxy
    have hy : Tracked y (some a) d.Outstanding d.views d.left := by rw [← ha]; exact h y
    rw [TracksView, hget, if_pos rfl, ha]
    exact hy.reportedAttached hp
  · have hne : (y == x) = false := beq_eq_false_iff_ne.mpr hxy
    rw [TracksView, hget, if_neg (Ne.symm hxy)]
    exact (h x).congr (performed_other hp ⟨hne, rfl⟩ (by simp)) fun _ _ => Iff.rfl

theorem tracksView_reportDetached (hhead : d.tasks.head n = some (.reportDetached y))
    (h : ∀ x, d.TracksView x) (x : ActivationId) :
    (d.perform n epoch (.reportDetached y)).TracksView x := by
  have hp : Performed x d.Outstanding (d.perform n epoch (.reportDetached y)).Outstanding
      (.reportDetached y) [] :=
    performed hhead (movesView_viewDetached d.table) rfl
  have hget : (d.perform n epoch (.reportDetached y)).table.get x =
      if x = y then (d.table.get x).map Activation.viewDetached else d.table.get x :=
    get_viewDetached d.table y x
  by_cases hxy : y = x
  · subst hxy
    rw [TracksView, hget, if_pos rfl]
    exact Tracked.reportedDetached (h y) hp
  · have hne : (y == x) = false := beq_eq_false_iff_ne.mpr hxy
    rw [TracksView, hget, if_neg (Ne.symm hxy)]
    exact (h x).congr (performed_other hp ⟨rfl, hne⟩ (by simp)) fun _ _ => Iff.rfl

theorem tracksView_perform (epoch : Option Nat) (hhead : d.tasks.head n = some item)
    (h : ∀ x, d.TracksView x) (x : ActivationId) : (d.perform n epoch item).TracksView x := by
  cases item with
  | perform effect =>
    cases effect with
    | send | wakePump | stopPump =>
      refine tracksView_idle hhead h (by rintro _ _ _ ⟨⟩) (fun _ => rfl) ?_ ?_ ?_ ?_ x <;> rfl
    | startPump y =>
      refine tracksView_idle hhead h (by rintro _ _ _ ⟨⟩) (fun _ => rfl) ?_ ?_ ?_ rfl x <;>
        simp only [perform, performItem, startPump] <;> split <;> rfl
    | attachView y s c v w => exact tracksView_attachView hhead h x
    | detachView y s c v => exact tracksView_detachView hhead h x
  | reportAttached y v e => exact tracksView_reportAttached hhead h x
  | reportDetached y => exact tracksView_reportDetached hhead h x

end Perform

theorem tracksView_next {e : DoorEvent} {d' : Door} (hwell : d.table.WellIndexed)
    (h : ∀ x, d.TracksView x) (hok : d.KeepsViews e) (hnext : d.next e = some d')
    (x : ActivationId) : d'.TracksView x := by
  cases e with
  | call m op =>
    simp only [next] at hnext
    split at hnext
    · next hmay =>
      cases hnext
      exact tracksView_call hwell hmay (hok x) (h x)
    · cases hnext
  | acceptLeg credit =>
    cases hnext
    cases credit <;> exact h x
  | perform n epoch =>
    obtain ⟨item, hhead, rfl⟩ := map_eq_some_iff.mp hnext
    exact tracksView_perform epoch hhead h x
  | pumpAsks y bytes cls =>
    obtain ⟨pump, -, rfl⟩ := map_eq_some_iff.mp hnext
    have hget : (d.pumpAsks y pump bytes cls).table.get x = d.table.get x := by
      simp only [pumpAsks, ActivationTable.canAdmit]
      split <;> rfl
    rw [TracksView, hget]
    exact h x
  | sessionLeaves s =>
    cases hnext
    have hx := h x
    have hviews : ∀ v : EngineView, v ∈ (d.sessionLeaves s).views ↔ v ∈ d.views ∧ v.sessionId ≠ s :=
      fun v => by rw [sessionLeaves, mem_filter, decide_eq_true_iff]
    exact
      { apart := hx.apart
        asked := hx.asked
        attached := fun ho => by
          obtain ⟨hv, a, ha, hin⟩ := hx.attached ho
          refine ⟨hv, a, ha, ?_⟩
          by_cases hs : a.sessionId = s
          · exact .inl (hs ▸ mem_cons_self)
          · exact hin.imp (mem_cons_of_mem s) fun hin => (hviews _).mpr ⟨hin, hs⟩
        covered := fun hs hin =>
          hx.covered (fun hleft => hs (mem_cons_of_mem _ hleft)) ((hviews _).mp hin).1
        recorded := fun {a v e} ha hv => by
          refine ⟨(hx.recorded ha hv).1, ?_⟩
          by_cases hs : a.sessionId = s
          · exact .inl (hs ▸ mem_cons_self)
          · exact (hx.recorded ha hv).2.imp (mem_cons_of_mem s) fun ho =>
              ho.imp_left fun hin => (hviews _).mpr ⟨hin, hs⟩
        parked := hx.parked
        detached := fun ho ha hv hs hin =>
          hx.detached ho ha hv (fun hleft => hs (mem_cons_of_mem _ hleft))
            ((hviews _).mp hin).1 }

theorem tracksView {cellBootId : String} (h : (machine cellBootId).Reaches KeepsViews d)
    (x : ActivationId) : d.TracksView x := by
  refine Machine.Reaches.invariant_of (P := fun d : Door => ∀ x, d.TracksView x)
    (fun x => ?_) (fun d e d' hr hd hok hnext => tracksView_next (wellIndexed hr) hd hok hnext) h x
  refine (Tracked.start x []).congr (fun i _ => ⟨fun ho => ?_, False.elim⟩) fun _ _ => Iff.rfl
  exact Tasks.not_outstanding_nil ho

/-- Some activation in the table records the view as attached. -/
def Records (t : ActivationTable) (v : EngineView) : Prop :=
  ∃ x a epoch, t.get x = some a ∧ a.sessionId = v.sessionId ∧ a.clientId = v.clientId ∧
    a.view = some (v.viewId, epoch)

end Door
end VibeField.Tp
