import VibeField.Tp.Leases

/-!
# Who hears that the seat moved

`Fanned t u es` says that the effects which take the table `t` to `u` leave nobody with
an old seat: each activation of `u` on a `geometry-events` leg is either told its
session's seat as it stands in `u`, or rode that leg before and the seat did not move.
Fan-outs compose, so each operation is read off its parts.
-/

namespace VibeField.Tp

open List Option

/-- The seat as a `GeometryState` carries it, the holder's face apart. -/
structure Seat where
  holder : Option GeometryHolder
  revision : Nat
  cols : Nat
  rows : Nat
  deriving DecidableEq, Repr

def GeometryState.seat (g : GeometryState) : Seat where
  holder := g.holder.map fun h =>
    { clientId := h.clientId, viewId := h.viewId, holderGeneration := h.holderGeneration }
  revision := g.geometryRevision
  cols := g.cols
  rows := g.rows

def Effect.seatOn (c : ConnectionId) (s : SessionId) : Effect → Option GeometryState
  | .send leg (.geometryState g) =>
    if leg.connectionId = c ∧ g.sessionId = s then some g else none
  | _ => none

def seatTold (c : ConnectionId) (s : SessionId) (es : List Effect) : Option Seat :=
  (es.filterMap (Effect.seatOn c s)).getLast?.map GeometryState.seat

def Effect.isSeat : Effect → Bool
  | .send _ (.geometryState _) => true
  | _ => false

/-- No seat is told. -/
def Silent (es : List Effect) : Prop := ∀ e ∈ es, e.isSeat = false

/-- Only legs that negotiated the events are told a seat. -/
def Negotiated (es : List Effect) : Prop :=
  ∀ leg g, Effect.send leg (.geometryState g) ∈ es → leg.geometryEvents = true

theorem seatTold_append (c : ConnectionId) (s : SessionId) (es fs : List Effect) :
    seatTold c s (es ++ fs) = (seatTold c s fs).or (seatTold c s es) := by
  rw [seatTold, filterMap_append, List.getLast?_append, seatTold, seatTold]
  cases (fs.filterMap (Effect.seatOn c s)).getLast? <;> rfl

namespace Silent

variable {es fs : List Effect} {c : ConnectionId} {s : SessionId}

theorem nil : Silent [] := fun _ h => by cases h

theorem append (h : Silent es) (k : Silent fs) : Silent (es ++ fs) := fun e he =>
  (mem_append.mp he).elim (h e) (k e)

theorem cons {e : Effect} (he : e.isSeat = false) (h : Silent es) : Silent (e :: es) := fun f hf =>
  (mem_cons.mp hf).elim (fun hfe => hfe ▸ he) (h f)

theorem one {e : Effect} (he : e.isSeat = false) : Silent [e] := nil.cons he

theorem ite {p : Prop} [Decidable p] (h : Silent es) (k : Silent fs) :
    Silent (if p then es else fs) := by
  split
  · exact h
  · exact k

theorem map {α : Type} (l : List α) (f : α → Effect) (hf : ∀ a, (f a).isSeat = false) :
    Silent (l.map f) := by
  intro e he
  obtain ⟨a, -, rfl⟩ := List.mem_map.mp he
  exact hf a

theorem option {α : Type} (o : Option α) (f : α → Effect) (hf : ∀ a, (f a).isSeat = false) :
    Silent (o.map f).toList := by
  cases o with
  | none => exact nil
  | some a => exact one (hf a)

theorem told (h : Silent es) : seatTold c s es = none := by
  have hnil : es.filterMap (Effect.seatOn c s) = [] := by
    refine filterMap_eq_nil_iff.mpr fun e he => ?_
    have hnot := h e he
    cases hon : Effect.seatOn c s e with
    | none => rfl
    | some g =>
      unfold Effect.seatOn at hon
      split at hon
      · cases hnot
      · cases hon
  rw [seatTold, hnil]
  rfl

theorem told_append (h : Silent es) : seatTold c s (es ++ fs) = seatTold c s fs := by
  rw [seatTold_append, h.told, or_none]

theorem append_told (h : Silent es) : seatTold c s (fs ++ es) = seatTold c s fs := by
  rw [seatTold_append, h.told, none_or]

theorem negotiated (h : Silent es) : Negotiated es := fun leg g hmem => by
  have := h _ hmem
  cases this

end Silent

theorem Negotiated.append {es fs : List Effect} (h : Negotiated es) (k : Negotiated fs) :
    Negotiated (es ++ fs) := fun leg g hmem =>
  (mem_append.mp hmem).elim (h leg g) (k leg g)

def Op.onLegs (legs : ConnectionId → LegRef) : Op → Bool
  | .attachControl i => i.leg == legs i.leg.connectionId
  | _ => true

def Op.losesSeat (t : ActivationTable) : Op → Bool
  | .attachControl i => (t.get i.activationId).isSome &&
      (t.byKey.lookup i.key).any fun existing =>
        i.replaces t existing && t.holdsSeat i.claims.sessionId existing
  | _ => false

namespace ActivationTable

variable {t u v : ActivationTable} {es fs : List Effect} {s : SessionId}

def seat (t : ActivationTable) (s : SessionId) : Option Seat :=
  (t.seatState s).map GeometryState.seat

theorem seat_eq (t : ActivationTable) (s : SessionId) :
    t.seat s = (t.geometry.lookup s).bind fun l => l.committed.map fun size =>
      { holder := l.holderWire, revision := l.revision, cols := size.1, rows := size.2 } := by
  rw [seat, seatState]
  cases hl : t.geometry.lookup s with
  | none => rfl
  | some l =>
    cases hc : l.committed with
    | none => simp [hc]
    | some size =>
      cases hh : l.holder <;>
        simp [hc, hh, GeometryState.seat, GeometryLease.holderWire, HolderRecord.announced,
          HolderRecord.wire]

theorem seat_of_lookup (h : u.geometry.lookup s = t.geometry.lookup s) : u.seat s = t.seat s := by
  rw [seat_eq, seat_eq, h]

theorem seat_setLease_ne (t : ActivationTable) {s s' : SessionId} (l : GeometryLease)
    (h : s' ≠ s) : (t.setLease s l).seat s' = t.seat s' := by
  refine seat_of_lookup ?_
  rw [setLease, Dict.lookup_insert, if_neg h]

theorem seat_of_lease (h : u.lease s = t.lease s) : u.seat s = t.seat s := by
  have heq : ∀ t : ActivationTable, t.seat s = (t.lease s).committed.map fun size =>
      { holder := (t.lease s).holderWire
        revision := (t.lease s).revision
        cols := size.1
        rows := size.2 } := by
    intro t
    rw [seat_eq, lease]
    cases t.geometry.lookup s <;> rfl
  rw [heq, heq, h]

/-! ## What an announcement tells -/

theorem seatTold_announcements_ne (t : ActivationTable) (c : ConnectionId) {s s' : SessionId}
    (h : s' ≠ s) : seatTold c s' (t.seatAnnouncements s) = none := by
  have hnil : (t.seatAnnouncements s).filterMap (Effect.seatOn c s') = [] := by
    refine filterMap_eq_nil_iff.mpr fun e he => ?_
    rw [seatAnnouncements] at he
    split at he
    · cases he
    · next state hstate =>
      obtain ⟨a, -, rfl⟩ := List.mem_map.mp he
      have hs : state.sessionId = s := by
        simp only [seatState, bind_eq_some_iff, map_eq_some_iff] at hstate
        obtain ⟨l, -, size, -, rfl⟩ := hstate
        rfl
      simp only [Effect.seatOn]
      rw [if_neg fun hboth => h (hboth.2.symm.trans hs)]
  rw [seatTold, hnil]
  rfl

theorem getLast?_of_all {α : Type} {l : List α} {v : α} (hne : l ≠ []) (h : ∀ a ∈ l, a = v) :
    l.getLast? = some v := by
  rw [List.getLast?_eq_some_getLast hne, h _ (getLast_mem hne)]

theorem seatState_session {g : GeometryState} (h : t.seatState s = some g) : g.sessionId = s := by
  simp only [seatState, bind_eq_some_iff, map_eq_some_iff] at h
  obtain ⟨l, -, size, -, rfl⟩ := h
  rfl

theorem seatTold_announcements {x : ActivationId} {a : Activation} (ha : t.get x = some a)
    (hnegotiated : a.control.geometryEvents = true) :
    seatTold a.control.connectionId a.sessionId (t.seatAnnouncements a.sessionId) =
      t.seat a.sessionId := by
  rw [seatAnnouncements, seat]
  cases hstate : t.seatState a.sessionId with
  | none => rfl
  | some g =>
    have hs := seatState_session hstate
    rw [seatTold, getLast?_of_all (v := g)]
    · have hmem : g ∈ ((t.byId.values.filter fun b =>
          b.sessionId == a.sessionId && b.control.geometryEvents).map fun b =>
            Effect.send b.control (.geometryState g)).filterMap
              (Effect.seatOn a.control.connectionId a.sessionId) := by
        refine mem_filterMap.mpr ⟨.send a.control (.geometryState g), ?_, ?_⟩
        · refine List.mem_map.mpr ⟨a, mem_filter.mpr ⟨?_, ?_⟩, rfl⟩
          · exact Dict.mem_values.mpr ⟨x, ha⟩
          · simp [hnegotiated]
        · simp [Effect.seatOn, hs]
      exact ne_nil_of_mem hmem
    · intro g' hg'
      obtain ⟨e, he, hon⟩ := mem_filterMap.mp hg'
      obtain ⟨b, -, rfl⟩ := List.mem_map.mp he
      simp only [Effect.seatOn] at hon
      split at hon
      · exact (some.inj hon).symm
      · cases hon

theorem negotiated_announcements (t : ActivationTable) (s : SessionId) :
    Negotiated (t.seatAnnouncements s) := by
  intro leg g hmem
  rw [seatAnnouncements] at hmem
  split at hmem
  · cases hmem
  · obtain ⟨a, ha, heq⟩ := List.mem_map.mp hmem
    obtain ⟨rfl, -⟩ := Effect.send.inj heq
    have := (mem_filter.mp ha).2
    simp only [Bool.and_eq_true] at this
    exact this.2

theorem seatTold_seatStateTo (t : ActivationTable) (s s' : SessionId) (leg : LegRef)
    (c : ConnectionId) :
    seatTold c s' (t.seatStateTo s leg) =
      if leg.geometryEvents = true ∧ leg.connectionId = c ∧ s = s' then t.seat s' else none := by
  rw [seatStateTo]
  by_cases hnegotiated : leg.geometryEvents = true
  · rw [if_pos hnegotiated, seat]
    cases hstate : t.seatState s with
    | none =>
      split
      · next h => rw [← h.2.2, hstate]; rfl
      · rfl
    | some g =>
      have hs := seatState_session hstate
      by_cases hboth : leg.connectionId = c ∧ s = s'
      · rw [if_pos ⟨hnegotiated, hboth⟩, ← hboth.2, hstate]
        simp [seatTold, Effect.seatOn, hboth.1, hs]
      · rw [if_neg fun h => hboth h.2]
        have hboth' : ¬ (leg.connectionId = c ∧ g.sessionId = s') := by rwa [hs]
        simp [seatTold, Effect.seatOn, hboth']
  · rw [if_neg hnegotiated, if_neg fun h => hnegotiated h.1]
    rfl

theorem negotiated_seatStateTo (t : ActivationTable) (s : SessionId) (leg : LegRef) :
    Negotiated (t.seatStateTo s leg) := by
  intro leg' g hmem
  rw [seatStateTo] at hmem
  split at hmem
  · next h =>
    cases hstate : t.seatState s with
    | none => rw [hstate] at hmem; cases hmem
    | some state =>
      rw [hstate] at hmem
      obtain ⟨rfl, -⟩ := Effect.send.inj (mem_singleton.mp hmem)
      exact h
  · cases hmem

/-! ## Fan-outs -/

/-- The activation rode the leg before, about the same session. -/
def Rode (t : ActivationTable) (x : ActivationId) (b : Activation) : Prop :=
  ∃ a, t.get x = some a ∧ a.control.connectionId = b.control.connectionId ∧
    a.sessionId = b.sessionId ∧ a.control.geometryEvents = true

structure Fanned (t u : ActivationTable) (es : List Effect) : Prop where
  told : ∀ x b, u.get x = some b → b.control.geometryEvents = true →
    ∀ seat, u.seat b.sessionId = some seat →
      seatTold b.control.connectionId b.sessionId es = some seat ∨
      (seatTold b.control.connectionId b.sessionId es = none ∧
        t.seat b.sessionId = some seat ∧ t.Rode x b)
  negotiated : Negotiated es

/-- Each record of `u` stands in `t` on the same leg. -/
def SameLegs (t u : ActivationTable) : Prop :=
  ∀ x b, u.get x = some b → ∃ a, t.get x = some a ∧ a.control = b.control ∧
    a.sessionId = b.sessionId

theorem SameLegs.rode (h : SameLegs t u) {x : ActivationId} {b : Activation}
    (hb : u.get x = some b) (hnegotiated : b.control.geometryEvents = true) : t.Rode x b := by
  obtain ⟨a, ha, hcontrol, hsession⟩ := h x b hb
  exact ⟨a, ha, by rw [hcontrol], hsession, by rw [hcontrol]; exact hnegotiated⟩

theorem SameLegs.of_get (h : ∀ x, u.get x = t.get x) : SameLegs t u := fun x b hb =>
  ⟨b, (h x).symm.trans hb, rfl, rfl⟩

namespace Fanned

theorem quiet (hlegs : SameLegs t u) (hseat : ∀ s, u.seat s = t.seat s) (hes : Silent es) :
    Fanned t u es where
  told _ _ hb hnegotiated _ hs :=
    .inr ⟨hes.told, (hseat _).symm.trans hs, hlegs.rode hb hnegotiated⟩
  negotiated := hes.negotiated

theorem trans (h : Fanned t u es) (k : Fanned u v fs) : Fanned t v (es ++ fs) where
  told x b hb hnegotiated seat hs := by
    rw [seatTold_append]
    rcases k.told x b hb hnegotiated seat hs with htold | ⟨hsilent, hu, a, ha, hc, hsession, hneg⟩
    · exact .inl (by rw [htold]; rfl)
    · rw [hsilent, none_or]
      have hbefore := h.told x a ha hneg seat (by rw [hsession]; exact hu)
      rw [hc, hsession] at hbefore
      rcases hbefore with htold | ⟨hsilent', ht, a', ha', hc', hsession', hneg'⟩
      · exact .inl htold
      · exact .inr ⟨hsilent', ht, a', ha', hc'.trans hc, hsession'.trans hsession, hneg'⟩
  negotiated := h.negotiated.append k.negotiated

theorem announced (hlegs : SameLegs t u) (s : SessionId)
    (hother : ∀ s', s' ≠ s → u.seat s' = t.seat s') (hes : Silent es) : Fanned t u (es ++ u.seatAnnouncements s) where
  told x b hb hnegotiated seat hs := by
    rw [seatTold_append, hes.told, or_none]
    by_cases hb' : b.sessionId = s
    · subst hb'
      rw [seatTold_announcements hb hnegotiated]
      exact .inl hs
    · rw [seatTold_announcements_ne _ _ hb']
      exact .inr ⟨rfl, (hother _ hb').symm.trans hs, hlegs.rode hb hnegotiated⟩
  negotiated := hes.negotiated.append (negotiated_announcements u s)

theorem release (t : ActivationTable) (s : SessionId) (x : ActivationId) :
    Fanned t (t.releaseGeometryIfHeld s x).1 (t.releaseGeometryIfHeld s x).2 := by
  rw [releaseGeometryIfHeld]
  split
  · have hvacated := announced (t := t) (u := t.setLease s (t.lease s).vacate)
      (SameLegs.of_get fun _ => rfl) s (fun s' hs' => seat_setLease_ne t _ hs') Silent.nil
    exact hvacated
  · exact quiet (SameLegs.of_get fun _ => rfl) (fun _ => rfl) .nil

theorem invalidate (t : ActivationTable) (m : Moment) (x : ActivationId) (r : Reason) :
    Fanned t (t.invalidate m x r).1 (t.invalidate m x r).2 := by
  rw [ActivationTable.invalidate]
  split
  · exact quiet (SameLegs.of_get fun _ => rfl) (fun _ => rfl) .nil
  · next a ha =>
    have hforget : Fanned t (t.forget a x) [] := by
      refine quiet (fun y b hb => ⟨b, ?_, rfl, rfl⟩) (fun _ => seat_of_lookup rfl) .nil
      rw [get_forget] at hb
      split at hb
      · cases hb
      · exact hb
    refine (hforget.trans (release _ a.sessionId x)).trans (quiet ?_ (fun s => ?_) ?_)
    · exact SameLegs.of_get (sameIndexes_closeAccount _ a).get
    · refine seat_of_lookup ?_
      unfold closeAccount
      split <;> rfl
    · exact ((Silent.nil.ite (.one rfl)).append (.option _ _ fun _ => rfl)).append
        ((Silent.one rfl).ite .nil)

theorem invalidateAll (m : Moment) (r : Reason) :
    ∀ (ids : List ActivationId) (t : ActivationTable),
      Fanned t (t.invalidateAll m r ids).1 (t.invalidateAll m r ids).2
  | [], _ => quiet (SameLegs.of_get fun _ => rfl) (fun _ => rfl) .nil
  | id :: rest, t => (invalidate t m id r).trans (invalidateAll m r rest _)

end Fanned

/-! ## Every operation fans out -/

variable {m : Moment} {op : Op} {x : ActivationId} {a : Activation}

/-- Every control leg is the one leg of its connection. -/
def OnLegs (legs : ConnectionId → LegRef) (t : ActivationTable) : Prop :=
  ∀ x a, t.get x = some a → a.control = legs a.control.connectionId

theorem sameLegs_apply (h : t.WellIndexed) (hattach : ∀ i, op ≠ .attachControl i) :
    SameLegs t (t.apply m op).1 := by
  intro x b hb
  have htouch := touch_apply h m op x
  rw [hb] at htouch
  generalize driven x (t.apply m op).2 = es at htouch
  cases ha : t.get x with
  | none =>
    rw [ha] at htouch
    cases htouch with
    | opened i _ _ => exact absurd rfl (hattach i)
  | some a =>
    rw [ha] at htouch
    refine ⟨a, rfl, ?_⟩
    cases htouch with
    | kept | framed | viewed | unviewed | repaired | sent => exact ⟨rfl, rfl⟩
    | reattached i => exact absurd rfl (hattach i)
    | demanded leg msg =>
      unfold Activation.demanded
      dsimp only
      split <;> exact ⟨rfl, rfl⟩
    | acknowledged leg msg =>
      unfold Activation.sceneApplied
      dsimp only
      split <;> exact ⟨rfl, rfl⟩
    | stopped =>
      unfold Activation.presentationStopped
      split
      · exact ⟨rfl, rfl⟩
      · split <;> exact ⟨rfl, rfl⟩
    | exited =>
      unfold Activation.sessionExited
      split <;> exact ⟨rfl, rfl⟩
    | recomputed =>
      unfold recomputed
      split <;> exact ⟨rfl, rfl⟩

namespace Fanned

theorem of_geometry (hlegs : SameLegs t u) (hgeometry : u.geometry = t.geometry) (hes : Silent es) :
    Fanned t u es :=
  quiet hlegs (fun _ => seat_of_lookup (by rw [hgeometry])) hes

theorem boarded {b : Activation} {leg : LegRef} {before after : List Effect} {moved : Prop}
    [Decidable moved] (hv : v.geometry = t.geometry) (hgeometry : u.geometry = t.geometry)
    (hget : ∀ y, u.get y = if y = x then some b else t.get y) (hb : b.control = leg)
    (hrode : ¬ moved → leg.geometryEvents = true → t.Rode x b)
    (hbefore : Silent before) (hafter : Silent after) :
    Fanned t u (before ++ (if moved then v.seatStateTo b.sessionId leg else []) ++ after) where
  told y c hc hnegotiated seat hs := by
    rw [hafter.append_told, hbefore.told_append]
    rw [seat_of_lookup (t := t) (by rw [hgeometry])] at hs
    rw [hget] at hc
    by_cases hmoved : moved
    · rw [if_pos hmoved, seatTold_seatStateTo, seat_of_lookup (t := t) (by rw [hv])]
      split
      · exact .inl hs
      · next hnot =>
        by_cases hy : y = x
        · rw [if_pos hy] at hc
          obtain rfl := some.inj hc
          exact absurd ⟨hb ▸ hnegotiated, by rw [hb], rfl⟩ hnot
        · rw [if_neg hy] at hc
          exact .inr ⟨rfl, hs, c, hc, rfl, rfl, hnegotiated⟩
    · rw [if_neg hmoved, Silent.nil.told]
      by_cases hy : y = x
      · subst hy
        rw [if_pos rfl] at hc
        obtain rfl := some.inj hc
        exact .inr ⟨rfl, hs, hrode hmoved (hb ▸ hnegotiated)⟩
      · rw [if_neg hy] at hc
        exact .inr ⟨rfl, hs, c, hc, rfl, rfl, hnegotiated⟩
  negotiated := by
    refine (hbefore.negotiated.append ?_).append hafter.negotiated
    split
    · exact negotiated_seatStateTo _ _ _
    · exact Silent.nil.negotiated

theorem reattach (i : AttachControlInput) (ha : t.get i.activationId = some a)
    (hkey : i.claims.sessionId = a.sessionId)
    (hsame : a.control.connectionId = i.leg.connectionId → a.control = i.leg) :
    Fanned t (t.reattachControl m i a).1 (t.reattachControl m i a).2 := by
  rw [reattachControl]
  split
  · exact of_geometry (SameLegs.of_get fun _ => rfl) rfl (.one rfl)
  · have hcontrol : (a.reattached m i.leg i.claims).control = i.leg := by
      unfold Activation.reattached
      split <;> rfl
    have hsession := (SameIdentity.reattached a m i.leg i.claims).sessionId
    have hmoved : Fanned t (t.modify i.activationId fun _ => a.reattached m i.leg i.claims)
        ([.send i.leg (a.reattached m i.leg i.claims).controlLegAttached] ++
          (if a.control.connectionId ≠ i.leg.connectionId then
            t.seatStateTo (a.reattached m i.leg i.claims).sessionId i.leg else []) ++
          if i.claims.grantGeneration > a.grantGeneration then
            [(a.reattached m i.leg i.claims).statusSent] else []) :=
      boarded rfl rfl (get_rewritten ha _) hcontrol
      (fun hstays hneg => ⟨a, ha, by rw [hcontrol, not_not.mp hstays], hsession.symm,
        by rw [hsame (not_not.mp hstays)]; exact hneg⟩)
      (.one rfl) ((Silent.one rfl).ite .nil)
    rw [hsession, ← hkey] at hmoved
    dsimp only
    split
    · exact hmoved.trans (release _ _ _)
    · exact hmoved

theorem openControl {t₀ : ActivationTable} (i : AttachControlInput) {before : List Effect}
    (hbefore : Fanned t₀ t before)
    (hrefused : (t.get i.activationId).isSome = true ∨ t.byId.len ≥ t.maxActivations →
      Fanned t₀ t []) :
    Fanned t₀ (t.openControl m i before).1 (t.openControl m i before).2 := by
  rw [ActivationTable.openControl]
  split
  · next hfull =>
    have hfull := (hrefused (.inr hfull)).trans (of_geometry (SameLegs.of_get fun _ => rfl) rfl
      (Silent.one (e := i.refused "CAPACITY" true) rfl))
    exact hfull
  · split
    · next htaken =>
      have htaken := (hrefused (.inl htaken)).trans (of_geometry (SameLegs.of_get fun _ => rfl) rfl
        (Silent.one (e := i.refused "ACTIVATION_CONFLICT" false) rfl))
      exact htaken
    · obtain ⟨u, hu⟩ : ∃ u, u = ({ t with
          byKey := t.byKey.insert i.key i.activationId
          byId := t.byId.insert i.activationId (i.opened m) } : ActivationTable) := ⟨_, rfl⟩
      have hget : ∀ y, u.get y = if y = i.activationId then some (i.opened m) else t.get y :=
        fun y => by rw [hu]; exact Dict.lookup_insert t.byId i.activationId y (i.opened m)
      have hgeometry : u.geometry = t.geometry := by rw [hu]
      have hopened : Fanned t u ([.send i.leg (i.opened m).controlLegAttached] ++
          (if True then u.seatStateTo (i.opened m).sessionId i.leg else []) ++
          if (i.opened m).demand = .live then
            [(i.opened m).attachesView (i.opened m).writesView] else []) :=
        boarded hgeometry hgeometry hget rfl (fun hnot => absurd trivial hnot) (.one rfl)
          ((Silent.one rfl).ite .nil)
      rw [if_pos trivial] at hopened
      have hall := hbefore.trans hopened
      simp only [hu, append_assoc, cons_append, nil_append] at hall ⊢
      exact hall

theorem attachControl (h : t.WellIndexed) (i : AttachControlInput)
    {legs : ConnectionId → LegRef} (hlegs : t.OnLegs legs) (hleg : i.leg = legs i.leg.connectionId)
    (hseat : Op.losesSeat t (.attachControl i) = false) :
    Fanned t (t.attachControl m i).1 (t.attachControl m i).2 := by
  have hend := attachControl_end t h m i
  generalize t.attachControl m i = r at hend
  cases hend with
  | refused code retryable => exact of_geometry (SameLegs.of_get fun _ => rfl) rfl (.one rfl)
  | own a ha _ _ hkey =>
    refine reattach i ha (congrArg Prod.snd hkey) fun hsame => ?_
    rw [hlegs _ a ha, hsame, ← hleg]
  | free _ _ _ =>
    have hkept : Fanned t t [] := of_geometry (SameLegs.of_get fun _ => rfl) rfl .nil
    exact openControl i hkept fun _ => hkept
  | replaced existing hr =>
    refine openControl i (invalidate t m existing .replaced) fun hrefusal => ?_
    obtain ⟨a, ha, hak⟩ := h.keyed (replaces_iff.mp hr).key
    have hsession : a.sessionId = i.claims.sessionId := congrArg Prod.snd hak
    rcases hrefusal with htaken | hfull
    · -- the refusal drops what the invalidation says, so the seat must not be its
      rw [get_invalidate, if_neg (Ne.symm (replaces_iff.mp hr).ne)] at htaken
      have hfree : ¬ t.holdsSeat a.sessionId existing = true := fun hholds => by
        simp [Op.losesSeat, htaken, (replaces_iff.mp hr).key, hr, ← hsession, hholds] at hseat
      have hsilent : (t.forget a existing).releaseGeometryIfHeld a.sessionId existing =
          (t.forget a existing, []) := by
        rw [releaseGeometryIfHeld]
        exact if_neg hfree
      refine of_geometry (fun y b hb => ⟨b, ?_, rfl, rfl⟩) ?_ .nil
      · rw [get_invalidate] at hb
        split at hb
        · cases hb
        · exact hb
      · simp only [ActivationTable.invalidate, ha, hsilent]
        unfold closeAccount
        split <;> rfl
    · exact absurd hfull (room_after_invalidate h m .replaced ha)

theorem claim (t : ActivationTable) (leg : LegRef) (msg : ClaimGeometry) (nowMs : Nat) :
    Fanned t (t.claimGeometry leg msg nowMs).1 (t.claimGeometry leg msg nowMs).2.effects := by
  refine quiet (SameLegs.of_get (WellIndexed.sameIndexes_claim t leg msg nowMs).get)
    (fun s => seat_of_lease (lease_claim t leg msg nowMs s)) ?_
  rw [claimGeometry]
  split
  · exact .one rfl
  · split
    · exact .one rfl
    · split
      · exact .one rfl
      · dsimp only
        split
        · exact .one rfl
        · split
          · exact .one rfl
          · exact .nil

theorem transfer (t : ActivationTable) (leg : LegRef) (msg : TransferGeometry) (nowMs : Nat) :
    Fanned t (t.transferGeometry leg msg nowMs).1 (t.transferGeometry leg msg nowMs).2.effects := by
  refine quiet (SameLegs.of_get (WellIndexed.sameIndexes_transfer t leg msg nowMs).get)
    (fun s => seat_of_lease (lease_transfer t leg msg nowMs s)) ?_
  rw [transferGeometry]
  split
  · exact .one rfl
  · split
    · exact .one rfl
    · split
      · exact .one rfl
      · dsimp only
        split
        · exact .one rfl
        · split
          · exact .one rfl
          · exact .nil

theorem silent_commitLease (l : GeometryLease) (leg : LegRef) (proceed : GeometryProceed)
    (outcome : GeometryOutcome) (live : Bool) :
    Silent (l.commitLease leg proceed outcome live).2 := by
  unfold GeometryLease.commitLease
  split
  · exact .one rfl
  · split
    · exact .one rfl
    · split
      · exact .one rfl
      · exact .one rfl
    · split
      · exact .one rfl
      · split
        · exact .one rfl
        · exact .one rfl

theorem commitLease_moves (l : GeometryLease) (leg : LegRef) (proceed : GeometryProceed)
    (outcome : GeometryOutcome) (live : Bool) :
    (l.commitLease leg proceed outcome live).1 = l ∨
      (l.commitLease leg proceed outcome live).1.revision = l.revision + 1 := by
  have hlapsed : (l.refuseLapsed leg).1 = l ∨ (l.refuseLapsed leg).1.revision = l.revision + 1 := by
    rw [GeometryLease.refuseLapsed]
    by_cases hheld : l.holder.isSome = true
    · exact .inr (by rw [if_pos hheld]; rfl)
    · exact .inl (by rw [if_neg hheld])
  unfold GeometryLease.commitLease
  split
  · exact .inl rfl
  · split
    · exact .inl rfl
    · split
      · exact hlapsed
      · exact .inr rfl
    · split
      · exact hlapsed
      · split
        · exact .inl rfl
        · exact .inr rfl

theorem finalize (t : ActivationTable) (leg : LegRef) (proceed : GeometryProceed)
    (outcome : GeometryOutcome) (nowMs : Nat) :
    Fanned t (t.geometryFinalize leg proceed outcome nowMs).1
      (t.geometryFinalize leg proceed outcome nowMs).2 := by
  have hlegs := SameLegs.of_get (WellIndexed.sameIndexes_finalize t leg proceed outcome nowMs).get
  have hsilent := silent_commitLease ((t.lease proceed.sessionId).recordSize outcome) leg proceed
    outcome (t.destinationLive proceed nowMs)
  have hmoves := commitLease_moves ((t.lease proceed.sessionId).recordSize outcome) leg proceed
    outcome (t.destinationLive proceed nowMs)
  simp only [geometryFinalize] at hlegs ⊢
  generalize ((t.lease proceed.sessionId).recordSize outcome).commitLease leg proceed outcome
    (t.destinationLive proceed nowMs) = done at *
  split
  · next hsame =>
    obtain ⟨hrevision, hcommitted⟩ := Prod.mk.inj hsame
    have hdone : done.1 = t.lease proceed.sessionId := by
      rcases hmoves with hkept | hstepped
      · rw [hkept] at hcommitted ⊢
        have hsize : (outcome.committedSize <|> (t.lease proceed.sessionId).committed) =
          (t.lease proceed.sessionId).committed := hcommitted
        rw [GeometryLease.recordSize, hsize]
      · have hstepped : done.1.revision = (t.lease proceed.sessionId).revision + 1 := hstepped
        omega
    rw [if_pos hsame] at hlegs
    refine quiet hlegs (fun s => ?_) hsilent
    rw [hdone]
    exact seat_of_lease (lease_rewrite t _ s)
  · next hmoved =>
    rw [if_neg hmoved] at hlegs
    exact announced hlegs _ (fun s' hs' => seat_setLease_ne t _ hs') hsilent

theorem releaseGeometry (t : ActivationTable) (leg : LegRef) (msg : ReleaseGeometry) :
    Fanned t (t.releaseGeometry leg msg).1 (t.releaseGeometry leg msg).2 := by
  have hkept : ∀ es, Silent es → Fanned t t es := fun es hes =>
    of_geometry (SameLegs.of_get fun _ => rfl) rfl hes
  rw [ActivationTable.releaseGeometry]
  split
  · next lease _ _ =>
    split
    · have hvacated := announced (t := t) (u := t.setLease msg.sessionId lease.vacate)
        (SameLegs.of_get fun _ => rfl) msg.sessionId (fun s' hs' => seat_setLease_ne t _ hs')
        Silent.nil
      exact hvacated
    · exact hkept _ (.one rfl)
  · exact hkept _ (.one rfl)

end Fanned

theorem silent_demandEffects (a : Activation) (m : Moment) (msg : DeclareDemand) :
    Silent (a.demandEffects m msg) := by
  rw [Activation.demandEffects]
  split
  · exact .nil
  · exact (Silent.one rfl).ite .nil
  · exact (((Silent.one rfl).ite .nil).append (.option _ _ fun _ => rfl)).append (.one rfl)

theorem silent_apply (t : ActivationTable) (m : Moment) (hop : op.movesSeats = false) :
    Silent (t.apply m op).2 := by
  cases op with
  | attachFrames i =>
    rw [apply, attachFrames]
    split
    · exact .one rfl
    · exact ((Silent.one rfl).append ((Silent.one rfl).ite .nil)).append
        ((Silent.one rfl).ite .nil)
  | viewAttached y v epoch =>
    rw [apply, viewAttached]
    split
    · exact .nil
    · exact (Silent.one rfl).ite (.one rfl)
  | declareDemand leg msg =>
    rw [apply, declareDemand]
    split
    · exact .nil
    · dsimp only
      split
      · exact .one rfl
      · exact .cons rfl (silent_demandEffects _ _ _)
  | requestScene leg msg =>
    rw [apply, requestScene]
    split
    · exact .nil
    · split
      · exact .one rfl
      · exact .nil
  | sceneApplied leg msg =>
    rw [apply, sceneApplied]
    split
    · exact .nil
    · exact (Silent.one rfl).ite .nil
  | presentationStopped y =>
    rw [apply, presentationStopped]
    split
    · exact .nil
    · exact Silent.nil.ite (.one rfl)
  | sessionExited s => exact .map _ _ fun _ => rfl
  | creditReturned c credit =>
    rw [apply, creditReturned]
    split
    · exact .nil
    · exact .map _ _ fun _ => rfl
  | openCredit | unitSent | tryAdmit | canAdmit | pruneModelGenerations => exact .nil
  | _ => cases hop

theorem Fanned.viewDetached (t : ActivationTable) (y : ActivationId) (m : Moment) :
    Fanned t (t.apply m (.viewDetached y)).1 (t.apply m (.viewDetached y)).2 := by
  rw [apply, ActivationTable.viewDetached]
  split
  · exact .of_geometry (SameLegs.of_get fun _ => rfl) rfl .nil
  · next a ha =>
    have hmodify : Fanned t (t.modify y fun _ => a.viewDetached) [] := by
      refine .of_geometry (fun x b hb => ?_) rfl .nil
      rw [get_rewritten ha] at hb
      split at hb
      · next hxy =>
        obtain rfl := some.inj hb
        exact ⟨a, hxy ▸ ha, rfl, rfl⟩
      · exact ⟨b, hb, rfl, rfl⟩
    exact hmodify.trans (.release _ _ _)

theorem Fanned.legClosed (t : ActivationTable) (c : ConnectionId) (m : Moment) :
    Fanned t (t.apply m (.legClosed c)).1 (t.apply m (.legClosed c)).2 := by
  have hdead := (Fanned.invalidateAll m .legDead (t.idsWhere (ridesLeg c)) t).trans
    (Fanned.of_geometry (u := { (t.invalidateAll m .legDead (t.idsWhere (ridesLeg c))).1 with
      credit := (t.invalidateAll m .legDead (t.idsWhere (ridesLeg c))).1.credit.erase c })
      (SameLegs.of_get fun _ => rfl) rfl .nil)
  rw [append_nil] at hdead
  exact hdead

theorem Fanned.tick (t : ActivationTable) (m : Moment) :
    Fanned t (t.apply m .tick).1 (t.apply m .tick).2 := by
  rw [apply, ActivationTable.tick]
  refine ((Fanned.invalidateAll m _ _ t).trans (.invalidateAll m _ _ _)).trans ?_
  refine .of_geometry (fun x b hb => ?_) rfl (.map _ _ fun _ => rfl)
  rw [recomputeAll, get_mapVals] at hb
  obtain ⟨a, ha, rfl⟩ := map_eq_some_iff.mp hb
  refine ⟨a, ha, ?_, (SameIdentity.recomputed a m).sessionId.symm⟩
  unfold recomputed
  split <;> rfl

theorem fanned_apply (h : t.WellIndexed) {legs : ConnectionId → LegRef} (hlegs : t.OnLegs legs)
    (hop : op.onLegs legs = true) (hseat : op.losesSeat t = false) :
    Fanned t (t.apply m op).1 (t.apply m op).2 := by
  cases hmoves : op.movesSeats with
  | false =>
    have hnew : ∀ i, op ≠ .attachControl i := by
      rintro i rfl
      cases hmoves
    exact .of_geometry (sameLegs_apply h hnew) (geometry_apply t m hmoves) (silent_apply t m hmoves)
  | true =>
    cases op with
    | attachControl i => exact Fanned.attachControl h i hlegs (beq_iff_eq.mp hop) hseat
    | viewDetached y => exact Fanned.viewDetached t y m
    | sessionRemoved s => exact Fanned.invalidateAll m _ _ t
    | claimGeometry leg msg => exact Fanned.claim t leg msg _
    | transferGeometry leg msg => exact Fanned.transfer t leg msg _
    | geometryFinalize leg proceed outcome => exact Fanned.finalize t leg proceed outcome _
    | releaseGeometry leg msg => exact Fanned.releaseGeometry t leg msg
    | legClosed c => exact Fanned.legClosed t c m
    | revokeClient c => exact Fanned.invalidateAll m _ _ t
    | tick => exact Fanned.tick t m
    | _ => cases hmoves

end ActivationTable
end VibeField.Tp
