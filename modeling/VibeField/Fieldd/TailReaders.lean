import VibeField.Base.Slots
import VibeField.Fieldd.IndexTail

/-!
# A tail and its readers

Each session has at most one tail open, the one in the table.  As long as no reader leaves a tail
without subscriptions while a subscribe still waits on it, a tail is closed only when no reader is
left, and every subscription is fed by a tail that is open and in the table.
-/

namespace VibeField.Fieldd

open List Option Dict

variable {s s' : IndexTailService} {i j k c : Nat} {t t' : SessionTail}

/-! ## How a tail changes -/

/-- A tail keeps its session and its subscriptions, stays closed, and settles once. -/
structure Turns (t t' : SessionTail) : Prop where
  session : t'.sessionId = t.sessionId
  subscribers : t'.subscribers = t.subscribers
  closed : t'.closed = false → t.closed = false
  settled : t.ready ≠ .pending → t'.ready = t.ready
  pending : t'.ready = .pending → t.ready = .pending ∧ t'.closed = t.closed

namespace Turns

theorem refl (t : SessionTail) : Turns t t := ⟨rfl, rfl, id, fun _ => rfl, fun h => ⟨h, rfl⟩⟩

theorem onSnapshot (t : SessionTail) : Turns t t.onSnapshot := by
  refine ⟨rfl, rfl, id, fun h => ?_, fun h => ?_⟩
  · cases hready : t.ready with
    | pending => exact absurd hready h
    | resolved => rw [SessionTail.onSnapshot, hready]; rfl
    | rejected error => rw [SessionTail.onSnapshot, hready]; rfl
  · cases hready : t.ready with
    | pending => rw [SessionTail.onSnapshot, hready] at h; cases h
    | resolved => rw [SessionTail.onSnapshot, hready] at h; cases h
    | rejected error => rw [SessionTail.onSnapshot, hready] at h; cases h

theorem close (t : SessionTail) : Turns t t.close := by
  unfold SessionTail.close
  split
  · exact refl t
  · refine ⟨rfl, rfl, fun h => (by cases h), fun h => ?_, fun h => ?_⟩
    · cases hready : t.ready with
      | pending => exact absurd hready h
      | resolved => rfl
      | rejected error => rfl
    · cases hready : t.ready with
      | pending => rw [hready] at h; cases h
      | resolved => rw [hready] at h; cases h
      | rejected error => rw [hready] at h; cases h

theorem onError (t : SessionTail) (error : ApiError) : Turns t (t.onError error) := by
  unfold SessionTail.onError
  split
  · next hready =>
    have hclose := close { t with ready := .rejected (.ofApiError error) }
    refine ⟨hclose.session, hclose.subscribers, hclose.closed, fun h => absurd hready h, ?_⟩
    exact fun h => by cases (hclose.pending h).1
  · exact refl t

end Turns

theorem SessionTail.closed_close (t : SessionTail) : t.close.closed = true := by
  unfold SessionTail.close
  split
  · next h => exact h
  · rfl

/-! ## What waits -/

theorem awaits_waiting (i : Nat) : (SubscribeCall.waiting i).awaits i = true := by
  rw [SubscribeCall.awaits, beq_self_eq_true, Bool.true_or]

theorem awaits_opened (i : Nat) : (SubscribeCall.opened i).awaits i = true := by
  rw [SubscribeCall.awaits, beq_self_eq_true, Bool.or_true]

theorem awaits_iff {call : SubscribeCall} :
    call.awaits i = true ↔ call = .waiting i ∨ call = .opened i := by
  rw [SubscribeCall.awaits, Bool.or_eq_true, beq_iff_eq, beq_iff_eq]

variable {tails : List SessionTail}

theorem waiting_of_settle {call : SubscribeCall}
    (h : call.settle tails = .waiting i) :
    call = .waiting i ∧ ∀ t, tails[i]? = some t → t.ready = .pending := by
  cases call with
  | waiting j =>
    rw [SubscribeCall.settle] at h
    split at h
    · cases h
    · cases h
    · next hresolved hrejected =>
      obtain rfl := SubscribeCall.waiting.inj h
      refine ⟨rfl, fun t ht => ?_⟩
      rw [ht, map_some] at hresolved hrejected
      cases hready : t.ready with
      | pending => rfl
      | resolved => exact absurd (congrArg some hready) hresolved
      | rejected error => exact absurd (congrArg some hready) (hrejected error)
  | opened j => cases h
  | refused j error => cases h
  | returned k => cases h
  | thrown error => cases h

theorem opened_of_settle {call : SubscribeCall}
    (h : call.settle tails = .opened i) :
    call = .opened i ∨ call = .waiting i ∧ ∃ t, tails[i]? = some t ∧ t.ready = .resolved := by
  cases call with
  | waiting j =>
    rw [SubscribeCall.settle] at h
    split at h
    · next hready =>
      obtain rfl := SubscribeCall.opened.inj h
      obtain ⟨t, ht, hresolved⟩ := map_eq_some_iff.mp hready
      exact .inr ⟨rfl, t, ht, hresolved⟩
    · cases h
    · cases h
  | opened j => exact .inl h
  | refused j error => cases h
  | returned k => cases h
  | thrown error => cases h

theorem awaits_of_settle {call : SubscribeCall}
    (h : (call.settle tails).awaits i = true) : call.awaits i = true := by
  rcases awaits_iff.mp h with h | h
  · rw [(waiting_of_settle h).1]
    exact awaits_waiting i
  · rcases opened_of_settle h with rfl | ⟨rfl, -⟩
    · exact awaits_opened i
    · exact awaits_waiting i

/-- Some call awaits the tail. -/
def Awaited (s : IndexTailService) (i : Nat) : Prop := ∃ call ∈ s.calls, call.awaits i = true

theorem Awaited.of_settle (h : Awaited s.settle i) : Awaited s i := by
  obtain ⟨call, hcall, hawaits⟩ := h
  obtain ⟨old, hold, rfl⟩ := List.mem_map.mp hcall
  exact ⟨old, hold, awaits_of_settle hawaits⟩

/-! ## The invariant -/

/-- Open tails are in the table, under their sessions; calls wait on tails that have not settled and
go on with tails that have resolved; and a tail's subscribers are the subscriptions on it. -/
structure Sound (s : IndexTailService) : Prop where
  tabled : ∀ (i : Nat) (t : SessionTail), s.tails[i]? = some t → t.closed = false →
    s.table.lookup t.sessionId = some i
  named : ∀ (id : String) (i : Nat), s.table.lookup id = some i →
    ∃ t : SessionTail, s.tails[i]? = some t ∧ t.sessionId = id
  pending : ∀ (i : Nat) (t : SessionTail), s.tails[i]? = some t → t.ready = .pending →
    t.closed = false
  waits : ∀ i : Nat, .waiting i ∈ s.calls →
    ∃ t : SessionTail, s.tails[i]? = some t ∧ t.ready = .pending
  opened : ∀ i : Nat, .opened i ∈ s.calls →
    ∃ t : SessionTail, s.tails[i]? = some t ∧ t.ready = .resolved
  placed : ∀ (k : Nat) (u : TailSubscription), s.subscriptions[k]? = some u →
    ∃ t : SessionTail, s.tails[u.tail]? = some t ∧ t.ready = .resolved
  installed : ∀ (i : Nat) (t : SessionTail), s.tails[i]? = some t → t.subscribers.Nodup ∧
    ∀ k, k ∈ t.subscribers ↔ s.subscriptions[k]? = some ⟨i, false⟩
  gone : s.disposed = true → s.table = ∅

/-- Subscriptions and calls that go on have tails that are open. -/
structure Fed (s : IndexTailService) : Prop where
  subscriptions : s.disposed = false → ∀ k i : Nat, s.subscriptions[k]? = some ⟨i, false⟩ →
    ∃ t : SessionTail, s.tails[i]? = some t ∧ t.closed = false
  opened : ∀ i : Nat, .opened i ∈ s.calls →
    ∃ t : SessionTail, s.tails[i]? = some t ∧ t.closed = false

/-- The tails after a step, each by its own change. -/
def TurnsTo (s : IndexTailService) (tails : List SessionTail)
    (g : Nat → SessionTail → SessionTail) : Prop :=
  ∀ j, tails[j]? = (s.tails[j]?).map (g j) ∧ ∀ t, s.tails[j]? = some t → Turns t (g j t)

theorem turnsTo_modify (s : IndexTailService) (i : Nat) {f : SessionTail → SessionTail}
    (hf : ∀ t, Turns t (f t)) :
    TurnsTo s (s.tails.modify i f) fun j t => if i = j then f t else t := by
  intro j
  refine ⟨List.getElem?_modify f i s.tails j, fun t _ => ?_⟩
  dsimp only
  split
  · exact hf t
  · exact .refl t

namespace Sound

theorem start : Sound {} := by
  refine ⟨fun i t h => ?_, fun id i h => ?_, fun i t h => ?_, fun i h => ?_, fun i h => ?_,
    fun k u h => ?_, fun i t h => ?_, fun h => ?_⟩ <;> cases h

theorem turn {tails : List SessionTail} {g : Nat → SessionTail → SessionTail}
    {calls : List SubscribeCall} (h : Sound s) (hturns : TurnsTo s tails g)
    (hcalls : ∀ call ∈ calls, call ∈ s.calls ∨
      ∃ (i : Nat) (t : SessionTail), call = .waiting i ∧ s.tails[i]? = some t) :
    Sound (IndexTailService.settle { s with tails, calls }) := by
  have hof : ∀ (j : Nat) (t' : SessionTail), tails[j]? = some t' →
      ∃ t, s.tails[j]? = some t ∧ Turns t t' := by
    intro j t' ht'
    rw [(hturns j).1] at ht'
    obtain ⟨t, ht, rfl⟩ := map_eq_some_iff.mp ht'
    exact ⟨t, ht, (hturns j).2 t ht⟩
  have hto : ∀ (j : Nat) (t : SessionTail), s.tails[j]? = some t →
      ∃ t', tails[j]? = some t' ∧ Turns t t' := by
    intro j t ht
    refine ⟨g j t, ?_, (hturns j).2 t ht⟩
    rw [(hturns j).1, ht]
    rfl
  refine ⟨fun i t' ht' hopen => ?_, fun id i hid => ?_, fun i t' ht' hpending => ?_,
    fun i hi => ?_, fun i hi => ?_, fun k u hk => ?_, fun i t' ht' => ?_, h.gone⟩
  · obtain ⟨t, ht, hturn⟩ := hof i t' ht'
    rw [hturn.session]
    exact h.tabled i t ht (hturn.closed hopen)
  · obtain ⟨t, ht, rfl⟩ := h.named id i hid
    obtain ⟨t', ht', hturn⟩ := hto i t ht
    exact ⟨t', ht', hturn.session⟩
  · obtain ⟨t, ht, hturn⟩ := hof i t' ht'
    obtain ⟨hready, hclosed⟩ := hturn.pending hpending
    rw [hclosed]
    exact h.pending i t ht hready
  · obtain ⟨call, hcall, hsettle⟩ := List.mem_map.mp hi
    obtain ⟨rfl, hpending⟩ := waiting_of_settle hsettle
    have hthere : ∃ t : SessionTail, s.tails[i]? = some t := by
      rcases hcalls _ hcall with hcall | ⟨j, t, heq, ht⟩
      · obtain ⟨t, ht, -⟩ := h.waits i hcall
        exact ⟨t, ht⟩
      · rw [SubscribeCall.waiting.inj heq]
        exact ⟨t, ht⟩
    obtain ⟨t, ht⟩ := hthere
    obtain ⟨t', ht', -⟩ := hto i t ht
    exact ⟨t', ht', hpending t' ht'⟩
  · obtain ⟨call, hcall, hsettle⟩ := List.mem_map.mp hi
    rcases opened_of_settle hsettle with rfl | ⟨-, hresolved⟩
    · obtain ⟨t, ht, hready⟩ := h.opened i
        ((hcalls _ hcall).resolve_right fun ⟨_, _, heq, _⟩ => SubscribeCall.noConfusion heq)
      obtain ⟨t', ht', hturn⟩ := hto i t ht
      refine ⟨t', ht', ?_⟩
      rw [hturn.settled (by rw [hready]; exact TailReady.noConfusion), hready]
    · exact hresolved
  · obtain ⟨t, ht, hready⟩ := h.placed k u hk
    obtain ⟨t', ht', hturn⟩ := hto u.tail t ht
    refine ⟨t', ht', ?_⟩
    rw [hturn.settled (by rw [hready]; exact TailReady.noConfusion), hready]
  · obtain ⟨t, ht, hturn⟩ := hof i t' ht'
    rw [hturn.subscribers]
    exact h.installed i t ht

theorem change {f : SessionTail → SessionTail} (h : Sound s) (i : Nat) (hf : ∀ t, Turns t (f t)) :
    Sound (s.change i f) := h.turn (turnsTo_modify s i hf) fun _ hcall => .inl hcall

theorem calls {calls : List SubscribeCall} (h : Sound s)
    (hcalls : ∀ call ∈ calls, ∀ i, call.awaits i = true → call ∈ s.calls) :
    Sound { s with calls } :=
  ⟨h.tabled, h.named, h.pending,
    fun i hi => h.waits i (hcalls _ hi i (awaits_waiting i)),
    fun i hi => h.opened i (hcalls _ hi i (awaits_opened i)),
    h.placed, h.installed, h.gone⟩

theorem releaseIfIdle (h : Sound s) (i : Nat) : Sound (s.releaseIfIdle i) := by
  unfold IndexTailService.releaseIfIdle
  split
  · exact h
  · next t ht =>
    split
    · exact h
    · have hchange := h.change i Turns.close
      dsimp only
      split
      · next hlookup =>
        refine ⟨fun j u hu hopen => ?_, fun id j hid => ?_, hchange.pending, hchange.waits,
          hchange.opened, hchange.placed, hchange.installed, fun hdisposed => ?_⟩
        · have hin := hchange.tabled j u hu hopen
          have hne : u.sessionId ≠ t.sessionId := by
            intro heq
            rw [heq, hlookup] at hin
            obtain rfl := some.inj hin
            have hclosed : (s.tails.modify i SessionTail.close)[i]? = some u := hu
            rw [List.getElem?_modify, ht] at hclosed
            obtain rfl : t.close = u := by simpa using hclosed
            rw [t.closed_close] at hopen
            cases hopen
          show (Dict.erase _ _).lookup _ = _
          rw [lookup_erase, if_neg hne]
          exact hin
        · have hin : (Dict.erase (s.change i SessionTail.close).table t.sessionId).lookup id =
              some j := hid
          rw [lookup_erase] at hin
          split at hin
          · cases hin
          · exact hchange.named id j hin
        · have hempty := hchange.gone hdisposed
          rw [hempty] at hlookup
          cases hlookup
      · exact hchange

theorem readers {f : List Nat → List Nat} {subscriptions : List TailSubscription} (h : Sound s)
    (i : Nat)
    (hplaced : ∀ (k : Nat) (u : TailSubscription), subscriptions[k]? = some u →
      ∃ t : SessionTail, s.tails[u.tail]? = some t ∧ t.ready = .resolved)
    (hinstalled : ∀ (j : Nat) (t : SessionTail), s.tails[j]? = some t →
      (if i = j then f t.subscribers else t.subscribers).Nodup ∧
        ∀ k, k ∈ (if i = j then f t.subscribers else t.subscribers) ↔
          subscriptions[k]? = some ⟨j, false⟩) :
    Sound { s with
      tails := s.tails.modify i fun t => { t with subscribers := f t.subscribers }
      subscriptions } := by
  have hof : ∀ (j : Nat) (t' : SessionTail),
      (s.tails.modify i fun t => { t with subscribers := f t.subscribers })[j]? = some t' →
      ∃ t, s.tails[j]? = some t ∧ t' = { t with
        subscribers := if i = j then f t.subscribers else t.subscribers } := by
    intro j t' ht'
    rw [List.getElem?_modify] at ht'
    obtain ⟨t, ht, rfl⟩ := map_eq_some_iff.mp ht'
    refine ⟨t, ht, ?_⟩
    split <;> rfl
  have hto : ∀ (j : Nat) (t : SessionTail), s.tails[j]? = some t →
      (s.tails.modify i fun t => { t with subscribers := f t.subscribers })[j]? = some { t with
        subscribers := if i = j then f t.subscribers else t.subscribers } := by
    intro j t ht
    rw [List.getElem?_modify, ht]
    refine congrArg some ?_
    dsimp only
    split <;> rfl
  refine ⟨fun j t' ht' hopen => ?_, fun id j hid => ?_, fun j t' ht' hpending => ?_,
    fun j hj => ?_, fun j hj => ?_, fun k u hk => ?_, fun j t' ht' => ?_, h.gone⟩
  · obtain ⟨t, ht, rfl⟩ := hof j t' ht'
    exact h.tabled j t ht hopen
  · obtain ⟨t, ht, rfl⟩ := h.named id j hid
    exact ⟨_, hto j t ht, rfl⟩
  · obtain ⟨t, ht, rfl⟩ := hof j t' ht'
    exact h.pending j t ht hpending
  · obtain ⟨t, ht, hready⟩ := h.waits j hj
    exact ⟨_, hto j t ht, hready⟩
  · obtain ⟨t, ht, hready⟩ := h.opened j hj
    exact ⟨_, hto j t ht, hready⟩
  · obtain ⟨t, ht, hready⟩ := hplaced k u hk
    exact ⟨_, hto u.tail t ht, hready⟩
  · obtain ⟨t, ht, rfl⟩ := hof j t' ht'
    exact hinstalled j t ht

theorem install (h : Sound s) (hi : .opened i ∈ s.calls) :
    Sound { s with
      tails := s.tails.modify i fun t =>
        { t with subscribers := t.subscribers ++ [s.subscriptions.length] }
      subscriptions := s.subscriptions ++ [⟨i, false⟩] } := by
  refine h.readers (f := fun subscribers => subscribers ++ [s.subscriptions.length]) i
    (fun k u hk => ?_) fun j t ht => ?_
  · rcases getElem?_snoc.mp hk with hk | ⟨-, rfl⟩
    · exact h.placed k u hk
    · exact h.opened i hi
  · obtain ⟨hnodup, hmem⟩ := h.installed j t ht
    by_cases hij : i = j
    · rw [if_pos hij]
      have hnew : s.subscriptions.length ∉ t.subscribers := by
        intro hin
        have hsome := (hmem _).mp hin
        rw [List.getElem?_eq_none (Nat.le_refl _)] at hsome
        cases hsome
      refine ⟨nodup_append.mpr ⟨hnodup, nodup_singleton _, ?_⟩, fun k => ?_⟩
      · rintro k hk _ hlast rfl
        exact hnew (mem_singleton.mp hlast ▸ hk)
      · rw [getElem?_snoc, mem_append, mem_singleton, hmem]
        simp only [hij, and_true]
    · rw [if_neg hij]
      refine ⟨hnodup, fun k => ?_⟩
      rw [getElem?_snoc, hmem]
      refine ⟨.inl, fun hk => hk.resolve_right fun hlast => hij ?_⟩
      exact (TailSubscription.mk.inj hlast.2).1

theorem leave {u : TailSubscription} (h : Sound s) (hk : s.subscriptions[k]? = some u) :
    Sound { s with
      subscriptions := s.subscriptions.set k { u with disposed := true }
      tails := s.tails.modify u.tail fun t =>
        { t with subscribers := t.subscribers.erase k } } := by
  have hlt : k < s.subscriptions.length := (List.getElem?_eq_some_iff.mp hk).1
  refine h.readers (f := fun subscribers => subscribers.erase k) u.tail
    (fun m v hm => ?_) fun j t ht => ?_
  · rw [List.getElem?_set] at hm
    split at hm
    · obtain rfl := some.inj hm
      exact h.placed k u hk
    · exact h.placed m v hm
  · obtain ⟨hnodup, hmem⟩ := h.installed j t ht
    have hset : ∀ m, (s.subscriptions.set k { u with disposed := true })[m]? = some ⟨j, false⟩ ↔
        m ≠ k ∧ s.subscriptions[m]? = some ⟨j, false⟩ := by
      intro m
      rw [List.getElem?_set]
      by_cases hkm : k = m
      · rw [if_pos hkm, if_pos hlt]
        refine ⟨fun hm => ?_, fun hm => absurd hkm.symm hm.1⟩
        cases some.inj hm
      · rw [if_neg hkm]
        exact ⟨fun hm => ⟨Ne.symm hkm, hm⟩, And.right⟩
    by_cases hij : u.tail = j
    · rw [if_pos hij]
      refine ⟨hnodup.erase k, fun m => ?_⟩
      rw [hnodup.mem_erase_iff, hmem, hset]
    · rw [if_neg hij]
      refine ⟨hnodup, fun m => ?_⟩
      rw [hmem, hset]
      refine ⟨fun hm => ⟨?_, hm⟩, And.right⟩
      rintro rfl
      rw [hk] at hm
      exact hij (congrArg TailSubscription.tail (some.inj hm))

theorem newTail {id : String} (h : Sound s) (hopen : s.openTail id = none)
    (hlive : s.disposed = false) :
    Sound { s with
      tails := s.tails ++ [{ sessionId := id }]
      table := s.table.insert id s.tails.length } := by
  have hold : ∀ (j : Nat) (t : SessionTail), s.tails[j]? = some t →
      (s.tails ++ [{ sessionId := id }])[j]? = some t :=
    fun j t ht => getElem?_snoc.mpr (.inl ht)
  refine ⟨fun j t ht hopen' => ?_, fun id' j hid => ?_, fun j t ht hpending => ?_,
    fun j hj => ?_, fun j hj => ?_, fun k u hk => ?_, fun j t ht => ?_, fun hdisposed => ?_⟩
  · show (Dict.insert _ _ _).lookup _ = _
    rw [lookup_insert]
    rcases getElem?_snoc.mp ht with hj | ⟨rfl, rfl⟩
    · have hin := h.tabled j t hj hopen'
      rw [if_neg, hin]
      rintro rfl
      rw [IndexTailService.openTail, hin, filter_some, hj, Option.any_some, hopen'] at hopen
      cases hopen
    · exact if_pos rfl
  · have hin : (Dict.insert s.table id s.tails.length).lookup id' = some j := hid
    rw [lookup_insert] at hin
    split at hin
    · next heq =>
      obtain rfl := some.inj hin
      exact ⟨_, getElem?_snoc.mpr (.inr ⟨rfl, rfl⟩), heq.symm⟩
    · obtain ⟨t, ht, hsession⟩ := h.named id' j hin
      exact ⟨t, hold j t ht, hsession⟩
  · rcases getElem?_snoc.mp ht with ht | ⟨-, rfl⟩
    · exact h.pending j t ht hpending
    · rfl
  · obtain ⟨t, ht, hready⟩ := h.waits j hj
    exact ⟨t, hold j t ht, hready⟩
  · obtain ⟨t, ht, hready⟩ := h.opened j hj
    exact ⟨t, hold j t ht, hready⟩
  · obtain ⟨t, ht, hready⟩ := h.placed k u hk
    exact ⟨t, hold u.tail t ht, hready⟩
  · rcases getElem?_snoc.mp ht with ht | ⟨rfl, rfl⟩
    · exact h.installed j t ht
    · refine ⟨nodup_nil, fun k => ⟨fun hk => absurd hk not_mem_nil, fun hk => ?_⟩⟩
      obtain ⟨t, ht', -⟩ := h.placed k _ hk
      rw [List.getElem?_eq_none (Nat.le_refl _)] at ht'
      cases ht'
  · rw [hlive] at hdisposed
    cases hdisposed

theorem call (h : Sound s) (ht : s.tails[i]? = some t) :
    Sound ((s.call (.waiting i)).settle) := by
  have hsame : TurnsTo s s.tails fun _ t => t := fun j =>
    ⟨Option.map_id'.symm, fun t _ => .refl t⟩
  refine h.turn hsame fun call hcall => ?_
  rcases mem_snoc.mp hcall with hcall | hcall
  · exact .inl hcall
  · exact .inr ⟨i, t, hcall, ht⟩

theorem thrown (h : Sound s) (error : IndexRefusal) : Sound (s.call (.thrown error)) := by
  refine h.calls fun call hcall i hawaits => ?_
  rcases mem_snoc.mp hcall with hcall | hcall
  · exact hcall
  · rw [hcall] at hawaits
    cases hawaits

end Sound

theorem tailFor_ok {id : String} {supervisor : Option RosettadState} (h : Sound s)
    (hlive : s.disposed = false) (hfor : s.tailFor id supervisor = .ok (s', i)) :
    Sound s' ∧ (∃ t : SessionTail, s'.tails[i]? = some t ∧ t.closed = false) ∧
      s'.calls = s.calls ∧ s'.subscriptions = s.subscriptions ∧ s'.disposed = s.disposed ∧
      ∀ (j : Nat) (t : SessionTail), s.tails[j]? = some t → s'.tails[j]? = some t := by
  unfold IndexTailService.tailFor at hfor
  split at hfor
  · next found hopen =>
    obtain ⟨rfl, rfl⟩ := Prod.mk.inj (Except.ok.inj hfor)
    obtain ⟨hlookup, hany⟩ := filter_eq_some_iff.mp hopen
    refine ⟨h, ?_, rfl, rfl, rfl, fun _ _ ht => ht⟩
    cases ht : s.tails[found]? with
    | none =>
      rw [ht] at hany
      cases hany
    | some t =>
      rw [ht, Option.any_some, Bool.not_eq_true'] at hany
      exact ⟨t, rfl, hany⟩
  · next hopen =>
    split at hfor
    · obtain ⟨rfl, rfl⟩ := Prod.mk.inj (Except.ok.inj hfor)
      exact ⟨h.newTail hopen hlive, ⟨_, getElem?_snoc.mpr (.inr ⟨rfl, rfl⟩), rfl⟩, rfl, rfl, rfl,
        fun _ _ ht => getElem?_snoc.mpr (.inl ht)⟩
    · cases hfor

namespace Sound

theorem subscribe (h : Sound s) (id : String) (supervisor : Option RosettadState) :
    Sound (s.subscribe id supervisor) := by
  unfold IndexTailService.subscribe
  split
  · exact h.thrown _
  · next hlive =>
    split
    · exact h.thrown _
    · next hfor =>
      obtain ⟨hsound, ⟨t, ht, -⟩, -⟩ := tailFor_ok h (eq_false_of_ne_true hlive) hfor
      exact hsound.call ht

theorem answer {call : SubscribeCall} (h : Sound s) (c : Nat)
    (hcall : ∀ i, call.awaits i = false) : Sound { s with calls := s.calls.set c call } := by
  refine h.calls fun old hold i hawaits => ?_
  rcases mem_or_eq_of_mem_set hold with hold | rfl
  · exact hold
  · rw [hcall i] at hawaits
    cases hawaits

theorem resume (h : Sound s) (hs : s.resume c = some s') : Sound s' := by
  unfold IndexTailService.resume at hs
  split at hs
  · next i hi =>
    obtain rfl := some.inj hs
    exact (h.install (mem_of_getElem? hi)).answer c fun _ => rfl
  · next i error hi =>
    obtain rfl := some.inj hs
    exact (h.answer c fun _ => rfl).releaseIfIdle i
  · cases hs

theorem timeout (h : Sound s) (hs : s.timeout c = some s') : Sound s' := by
  unfold IndexTailService.timeout at hs
  split at hs
  · obtain rfl := some.inj hs
    exact h.answer c fun _ => rfl
  · cases hs

theorem disposeSubscription (h : Sound s) (hs : s.disposeSubscription k = some s') :
    Sound s' := by
  unfold IndexTailService.disposeSubscription at hs
  split at hs
  · cases hs
  · next u hu =>
    obtain rfl := some.inj hs
    exact (h.leave hu).releaseIfIdle u.tail

end Sound

/-! ## Disposing of the service -/

theorem SessionTail.close_close (t : SessionTail) : t.close.close = t.close := by
  rw [SessionTail.close, if_pos t.closed_close]

theorem getElem?_closeAll (l : List Nat) (tails : List SessionTail) (j : Nat) :
    (l.foldl (fun tails i => tails.modify i SessionTail.close) tails)[j]? =
      (tails[j]?).map fun t => if j ∈ l then t.close else t := by
  induction l generalizing tails with
  | nil =>
    rw [foldl_nil]
    simp
  | cons i rest ih =>
    rw [foldl_cons, ih, List.getElem?_modify]
    cases tails[j]? with
    | none => rfl
    | some t =>
      by_cases hij : i = j
      · by_cases hmem : j ∈ rest <;> simp [hij, hmem, SessionTail.close_close]
      · by_cases hmem : j ∈ rest <;> simp [hij, hmem, Ne.symm hij]

theorem turnsTo_closeAll (s : IndexTailService) :
    TurnsTo s (s.table.values.foldl (fun tails i => tails.modify i SessionTail.close) s.tails)
      fun j t => if j ∈ s.table.values then t.close else t := by
  intro j
  refine ⟨getElem?_closeAll _ _ j, fun t _ => ?_⟩
  dsimp only
  split
  · exact .close t
  · exact .refl t

theorem closed_dispose (h : Sound s) (ht : s.dispose.tails[j]? = some t) : t.closed = true := by
  have hget := getElem?_closeAll s.table.values s.tails j
  obtain ⟨t', ht', rfl⟩ := map_eq_some_iff.mp (hget.symm.trans ht)
  split
  · exact t'.closed_close
  · next hnot =>
    cases hclosed : t'.closed with
    | true => rfl
    | false => exact absurd (mem_values.mpr ⟨_, h.tabled j t' ht' hclosed⟩) hnot

theorem Sound.dispose (h : Sound s) : Sound s.dispose := by
  have hturn := h.turn (turnsTo_closeAll s) fun _ hcall => .inl hcall
  refine ⟨fun i t ht hopen => ?_, fun id i hid => ?_, hturn.pending, hturn.waits, hturn.opened,
    hturn.placed, hturn.installed, fun _ => rfl⟩
  · rw [closed_dispose h ht] at hopen
    cases hopen
  · cases hid

theorem Sound.next {e : TailEvent} (h : Sound s) (hs : s.next e = some s') : Sound s' := by
  cases e with
  | subscribe id supervisor =>
    obtain rfl := some.inj hs
    exact h.subscribe id supervisor
  | snapshot i =>
    obtain rfl := some.inj hs
    exact h.change i Turns.onSnapshot
  | error i error =>
    obtain rfl := some.inj hs
    exact h.change i fun t => .onError t error
  | timeout c => exact h.timeout hs
  | resume c => exact h.resume hs
  | disposeSubscription k => exact h.disposeSubscription hs
  | dispose =>
    obtain rfl := some.inj hs
    exact h.dispose

/-! ## Which step closes a tail -/

/-- No reader is left on the tail: no subscription that is not disposed, and no call that waits. -/
def Idle (s : IndexTailService) (i : Nat) : Prop :=
  (∀ k : Nat, s.subscriptions[k]? ≠ some ⟨i, false⟩) ∧ ¬Awaited s i

/-- What a step of `s` does to its tails, subscriptions and calls; where it closes a tail `j`, what
`Closes j` says of the tail before and after. -/
structure Steps (s s' : IndexTailService) (Closes : Nat → SessionTail → SessionTail → Prop) :
    Prop where
  tails : ∀ (j : Nat) (t : SessionTail), s.tails[j]? = some t →
    ∃ t' : SessionTail, s'.tails[j]? = some t' ∧
      (t.closed = false → t'.closed = true → Closes j t t')
  disposed : s'.disposed = false → s.disposed = false
  subscriptions : ∀ k i : Nat, s'.subscriptions[k]? = some ⟨i, false⟩ →
    s.subscriptions[k]? = some ⟨i, false⟩ ∨ .opened i ∈ s.calls
  awaited : ∀ i, Awaited s' i → Awaited s i ∨
    ∃ t' : SessionTail, s'.tails[i]? = some t' ∧ t'.closed = false

theorem steps_releaseIfIdle (s : IndexTailService) (i : Nat) :
    Steps s (s.releaseIfIdle i) fun j t _ => j = i ∧ t.subscribers = [] := by
  have hsame : Steps s s fun j t _ => j = i ∧ t.subscribers = [] :=
    ⟨fun _ t ht => ⟨t, ht, fun hopen hclosed => absurd (hopen.symm.trans hclosed) Bool.noConfusion⟩,
      id, fun _ _ => .inl, fun _ => .inl⟩
  unfold IndexTailService.releaseIfIdle
  split
  · exact hsame
  · next t ht =>
    split
    · exact hsame
    · next hnone =>
      have hchange : Steps s (s.change i SessionTail.close)
          fun j t _ => j = i ∧ t.subscribers = [] := by
        refine ⟨fun j u hu => ?_, id, fun _ _ => .inl, fun _ h => .inl h.of_settle⟩
        refine ⟨if i = j then u.close else u, ?_, fun hopen hclosed => ?_⟩
        · show (s.tails.modify i SessionTail.close)[j]? = _
          rw [List.getElem?_modify, hu]
          rfl
        · by_cases hij : i = j
          · subst hij
            obtain rfl := some.inj (ht.symm.trans hu)
            exact ⟨rfl, eq_nil_of_length_eq_zero (Nat.eq_zero_of_not_pos hnone)⟩
          · rw [if_neg hij, hopen] at hclosed
            cases hclosed
      dsimp only
      split
      · exact { hchange with }
      · exact hchange

theorem idle_releaseIfIdle (h : Sound s) (ht : s.tails[i]? = some t) (hnone : t.subscribers = [])
    (hawaited : ¬Awaited s i) (ht' : (s.releaseIfIdle i).tails[i]? = some t')
    (hclosed : t'.closed = true) : Idle (s.releaseIfIdle i) i := by
  have hsteps := steps_releaseIfIdle s i
  refine ⟨fun k hk => ?_, fun hawaits => ?_⟩
  · rcases hsteps.subscriptions k i hk with hk | hopened
    · have hmem := ((h.installed i t ht).2 k).mpr hk
      rw [hnone] at hmem
      exact absurd hmem not_mem_nil
    · exact hawaited ⟨_, hopened, awaits_opened i⟩
  · rcases hsteps.awaited i hawaits with hawaits | ⟨u, hu, hopen⟩
    · exact hawaited hawaits
    · obtain rfl := some.inj (ht'.symm.trans hu)
      rw [hclosed] at hopen
      cases hopen

/-! ## The condition -/

def LeavesNoneWaiting (s : IndexTailService) : TailEvent → Prop
  | .resume c => ∀ (i : Nat) (error : IndexRefusal) (t : SessionTail),
    s.calls[c]? = some (.refused i error) → s.tails[i]? = some t → t.closed = false →
      t.subscribers = [] → ¬Awaited s i
  | .disposeSubscription k => ∀ (u : TailSubscription) (t : SessionTail),
    s.subscriptions[k]? = some u → s.tails[u.tail]? = some t → t.closed = false →
      t.subscribers.erase k = [] → ¬Awaited s u.tail
  | .dispose => ∀ i, .opened i ∉ s.calls
  | _ => True

/-- Why a step closes a tail: it leaves it idle, the socket refused, or the service is disposed. -/
def ClosedFor (s' : IndexTailService) (e : TailEvent) (j : Nat) (t t' : SessionTail) : Prop :=
  Idle s' j ∨ (∃ error, e = .error j error ∧ t.ready = .pending ∧ t'.ready ≠ .resolved) ∨
    (e = .dispose ∧ (t.ready = .pending → t'.ready ≠ .resolved))

theorem steps_subscribe (h : Sound s) (id : String) (supervisor : Option RosettadState) :
    Steps s (s.subscribe id supervisor) fun _ _ _ => False := by
  have hthrown : ∀ error, Steps s (s.call (.thrown error)) fun _ _ _ => False := by
    refine fun error => ⟨fun j t ht => ⟨t, ht, fun hopen hclosed => ?_⟩, fun hlive => hlive,
      fun _ _ => .inl, ?_⟩
    · exact absurd (hopen.symm.trans hclosed) Bool.noConfusion
    · rintro i ⟨call, hcall, hawaits⟩
      rcases mem_snoc.mp hcall with hcall | hcall
      · exact .inl ⟨call, hcall, hawaits⟩
      · rw [hcall] at hawaits
        cases hawaits
  unfold IndexTailService.subscribe
  split
  · exact hthrown _
  · next hlive =>
    split
    · exact hthrown _
    · next found i hfor =>
      obtain ⟨-, hopen, hcalls, hsubscriptions, hdisposed, htails⟩ :=
        tailFor_ok h (eq_false_of_ne_true hlive) hfor
      refine ⟨fun j t ht => ⟨t, htails j t ht, fun hopen hclosed => ?_⟩, ?_, fun k j hk => ?_, ?_⟩
      · exact absurd (hopen.symm.trans hclosed) Bool.noConfusion
      · exact fun hlive => hdisposed ▸ hlive
      · have hk' : found.subscriptions[k]? = some ⟨j, false⟩ := hk
        rw [hsubscriptions] at hk'
        exact .inl hk'
      · intro j hj
        obtain ⟨call, hcall, hawaits⟩ := hj.of_settle
        rcases mem_snoc.mp hcall with hcall | hcall
        · rw [hcalls] at hcall
          exact .inl ⟨call, hcall, hawaits⟩
        · rw [hcall] at hawaits
          rcases awaits_iff.mp hawaits with heq | heq
          · obtain rfl := SubscribeCall.waiting.inj heq
            exact .inr hopen
          · cases heq

theorem steps_change {f : SessionTail → SessionTail} (s : IndexTailService) (i : Nat) :
    Steps s (s.change i f) fun j t t' => j = i ∧ t' = f t := by
  refine ⟨fun j t ht => ⟨if i = j then f t else t, ?_, fun hopen hclosed => ?_⟩, id,
    fun _ _ => .inl, fun _ h => .inl h.of_settle⟩
  · show (s.tails.modify i f)[j]? = _
    rw [List.getElem?_modify, ht]
    rfl
  · by_cases hij : i = j
    · rw [if_pos hij]
      exact ⟨hij.symm, rfl⟩
    · rw [if_neg hij, hopen] at hclosed
      cases hclosed

theorem Awaited.of_answer {call : SubscribeCall} {subscriptions : List TailSubscription}
    {tails : List SessionTail} (hcall : ∀ i, call.awaits i = false)
    (h : Awaited { s with tails, subscriptions, calls := s.calls.set c call } i) : Awaited s i := by
  obtain ⟨old, hold, hawaits⟩ := h
  rcases mem_or_eq_of_mem_set hold with hold | rfl
  · exact ⟨old, hold, hawaits⟩
  · rw [hcall i] at hawaits
    cases hawaits

theorem steps_resume (h : Sound s) (hok : LeavesNoneWaiting s (.resume c))
    (hs : s.resume c = some s') : Steps s s' fun j _ _ => Idle s' j := by
  unfold IndexTailService.resume at hs
  split at hs
  · next i hi =>
    obtain rfl := some.inj hs
    refine ⟨fun j t ht => ?_, id, fun k j hk => ?_, fun j hj => .inl ?_⟩
    · refine ⟨_, (List.getElem?_modify _ i s.tails j).trans (congrArg _ ht), ?_⟩
      intro hopen hclosed
      split at hclosed <;> exact absurd (hopen.symm.trans hclosed) Bool.noConfusion
    · rcases getElem?_snoc.mp hk with hk | ⟨-, heq⟩
      · exact .inl hk
      · obtain rfl := (TailSubscription.mk.inj heq).1
        exact .inr (mem_of_getElem? hi)
    · exact hj.of_answer fun _ => rfl
  · next i error hi =>
    obtain rfl := some.inj hs
    have hsteps := steps_releaseIfIdle { s with calls := s.calls.set c (.thrown error) } i
    refine ⟨fun j t ht => ?_, hsteps.disposed, fun k j hk => ?_, fun j hj => ?_⟩
    · obtain ⟨t', ht', hcloses⟩ := hsteps.tails j t ht
      refine ⟨t', ht', fun hopen hclosed => ?_⟩
      obtain ⟨rfl, hnone⟩ := hcloses hopen hclosed
      refine idle_releaseIfIdle (h.answer c fun _ => rfl) ht hnone (fun hawaited => ?_) ht' hclosed
      exact hok j error t hi ht hopen hnone (hawaited.of_answer fun _ => rfl)
    · rcases hsteps.subscriptions k j hk with hk | hopened
      · exact .inl hk
      · rcases mem_or_eq_of_mem_set hopened with hopened | heq
        · exact .inr hopened
        · cases heq
    · exact (hsteps.awaited j hj).imp_left fun hj => hj.of_answer fun _ => rfl
  · cases hs

theorem steps_timeout (hs : s.timeout c = some s') : Steps s s' fun _ _ _ => False := by
  unfold IndexTailService.timeout at hs
  split at hs
  · obtain rfl := some.inj hs
    refine ⟨fun j t ht => ⟨t, ht, fun hopen hclosed => ?_⟩, id, fun k j hk => .inl hk,
      fun j hj => .inl (hj.of_answer fun _ => rfl)⟩
    exact absurd (hopen.symm.trans hclosed) Bool.noConfusion
  · cases hs

theorem steps_disposeSubscription (h : Sound s)
    (hok : LeavesNoneWaiting s (.disposeSubscription k))
    (hs : s.disposeSubscription k = some s') : Steps s s' fun j _ _ => Idle s' j := by
  unfold IndexTailService.disposeSubscription at hs
  split at hs
  · cases hs
  · next u hu =>
    obtain rfl := some.inj hs
    have hsteps := steps_releaseIfIdle { s with
      subscriptions := s.subscriptions.set k { u with disposed := true }
      tails := s.tails.modify u.tail fun t =>
        { t with subscribers := t.subscribers.erase k } } u.tail
    have hleft : ∀ (j : Nat) (t : SessionTail), s.tails[j]? = some t →
        (s.tails.modify u.tail fun t => { t with subscribers := t.subscribers.erase k })[j]? =
          some { t with
            subscribers := if u.tail = j then t.subscribers.erase k else t.subscribers } := by
      intro j t ht
      rw [List.getElem?_modify, ht]
      refine congrArg some ?_
      dsimp only
      split <;> rfl
    refine ⟨fun j t ht => ?_, hsteps.disposed, fun m j hm => ?_, hsteps.awaited⟩
    · obtain ⟨t', ht', hcloses⟩ := hsteps.tails j _ (hleft j t ht)
      refine ⟨t', ht', fun hopen hclosed => ?_⟩
      obtain ⟨rfl, hnone⟩ := hcloses hopen hclosed
      refine idle_releaseIfIdle (h.leave hu) (hleft u.tail t ht) hnone (fun hawaited => ?_) ht'
        hclosed
      rw [if_pos rfl] at hnone
      exact hok u t hu ht hopen hnone hawaited
    · rcases hsteps.subscriptions m j hm with hm | hopened
      · have hm' : (s.subscriptions.set k { u with disposed := true })[m]? = some ⟨j, false⟩ := hm
        rw [List.getElem?_set] at hm'
        split at hm'
        · split at hm' <;> cases hm'
        · exact .inl hm'
      · exact .inr hopened

theorem steps_dispose (h : Sound s) : Steps s s.dispose fun _ t t' => t' = t.close := by
  refine ⟨fun j t ht => ⟨if j ∈ s.table.values then t.close else t, ?_, fun hopen hclosed => ?_⟩,
    fun hlive => (by cases hlive), fun _ _ => .inl, fun j hj => .inl ?_⟩
  · exact (getElem?_closeAll _ _ j).trans (congrArg _ ht)
  · rw [if_pos (mem_values.mpr ⟨_, h.tabled j t ht hopen⟩)]
  · have hj' : Awaited (IndexTailService.settle { s with
        tails := s.table.values.foldl (fun tails i => tails.modify i SessionTail.close) s.tails
        table := ∅
        disposed := true }) j := hj
    exact hj'.of_settle

theorem ready_ne_of_error {error : ApiError} (hopen : t.closed = false)
    (hclosed : (t.onError error).closed = true) :
    t.ready = .pending ∧ (t.onError error).ready ≠ .resolved := by
  unfold SessionTail.onError at hclosed ⊢
  split at hclosed
  · next hready =>
    refine ⟨hready, fun hresolved => ?_⟩
    rw [SessionTail.close] at hresolved
    split at hresolved <;> cases hresolved
  · rw [hopen] at hclosed
    cases hclosed

theorem ready_ne_of_close (hopen : t.closed = false) (hready : t.ready = .pending) :
    t.close.ready ≠ .resolved := by
  rw [SessionTail.close, if_neg (by rw [hopen]; exact Bool.false_ne_true), hready]
  exact TailReady.noConfusion

theorem Steps.mono {C C' : Nat → SessionTail → SessionTail → Prop} (h : Steps s s' C)
    (hC : ∀ j t t', s.tails[j]? = some t → t.closed = false → t'.closed = true → C j t t' →
      C' j t t') : Steps s s' C' := by
  refine ⟨fun j t ht => ?_, h.disposed, h.subscriptions, h.awaited⟩
  obtain ⟨t', ht', hcloses⟩ := h.tails j t ht
  exact ⟨t', ht', fun hopen hclosed => hC j t t' ht hopen hclosed (hcloses hopen hclosed)⟩

theorem steps_next {e : TailEvent} (h : Sound s) (hok : LeavesNoneWaiting s e)
    (hs : s.next e = some s') : Steps s s' (ClosedFor s' e) := by
  cases e with
  | subscribe id supervisor =>
    obtain rfl := some.inj hs
    exact (steps_subscribe h id supervisor).mono fun _ _ _ _ _ _ h => h.elim
  | snapshot i =>
    obtain rfl := some.inj hs
    refine (steps_change s i).mono fun j t t' _ hopen hclosed heq => ?_
    rw [heq.2] at hclosed
    exact absurd (hopen.symm.trans hclosed) Bool.noConfusion
  | error i error =>
    obtain rfl := some.inj hs
    refine (steps_change s i).mono fun j t t' _ hopen hclosed heq => .inr (.inl ?_)
    rw [heq.2] at hclosed ⊢
    exact ⟨error, by rw [heq.1], ready_ne_of_error hopen hclosed⟩
  | timeout c => exact (steps_timeout hs).mono fun _ _ _ _ _ _ h => h.elim
  | resume c => exact (steps_resume h hok hs).mono fun _ _ _ _ _ _ => .inl
  | disposeSubscription k =>
    exact (steps_disposeSubscription h hok hs).mono fun _ _ _ _ _ _ => .inl
  | dispose =>
    obtain rfl := some.inj hs
    refine (steps_dispose h).mono fun j t t' _ hopen _ heq => .inr (.inr ⟨rfl, fun hready => ?_⟩)
    rw [heq]
    exact ready_ne_of_close hopen hready

/-! ## Readers are fed -/

theorem Fed.next {e : TailEvent} (h : Fed s) (hsound : Sound s) (hok : LeavesNoneWaiting s e)
    (hs : s.next e = some s') : Fed s' := by
  have hsteps := steps_next hsound hok hs
  have hsound' := hsound.next hs
  refine ⟨fun hlive k i hk => ?_, fun i hi => ?_⟩
  · have hopen : ∃ t : SessionTail, s.tails[i]? = some t ∧ t.closed = false := by
      rcases hsteps.subscriptions k i hk with hold | hopened
      · exact h.subscriptions (hsteps.disposed hlive) k i hold
      · exact h.opened i hopened
    obtain ⟨t, ht, hopen⟩ := hopen
    obtain ⟨t', ht', hcloses⟩ := hsteps.tails i t ht
    refine ⟨t', ht', eq_false_of_ne_true fun hclosed => ?_⟩
    rcases hcloses hopen hclosed with hidle | ⟨error, rfl, -, hne⟩ | ⟨rfl, -⟩
    · exact hidle.1 k hk
    · obtain ⟨u, hu, hready⟩ := hsound'.placed k _ hk
      obtain rfl := some.inj (ht'.symm.trans hu)
      exact hne hready
    · obtain rfl := some.inj hs
      cases hlive
  · rcases hsteps.awaited i ⟨_, hi, awaits_opened i⟩ with ⟨call, hcall, hawaits⟩ | hthere
    · obtain ⟨u, hu, hready'⟩ := hsound'.opened i hi
      have hopen : ∃ t : SessionTail, s.tails[i]? = some t ∧ t.closed = false := by
        rcases awaits_iff.mp hawaits with rfl | rfl
        · obtain ⟨t, ht, hpending⟩ := hsound.waits i hcall
          exact ⟨t, ht, hsound.pending i t ht hpending⟩
        · exact h.opened i hcall
      obtain ⟨t, ht, hopen⟩ := hopen
      obtain ⟨t', ht', hcloses⟩ := hsteps.tails i t ht
      refine ⟨t', ht', eq_false_of_ne_true fun hclosed => ?_⟩
      obtain rfl := some.inj (ht'.symm.trans hu)
      rcases hcloses hopen hclosed with hidle | ⟨error, rfl, -, hne⟩ | ⟨rfl, hne⟩
      · exact hidle.2 ⟨_, hi, awaits_opened i⟩
      · exact hne hready'
      · rcases awaits_iff.mp hawaits with rfl | rfl
        · obtain ⟨v, hv, hpending⟩ := hsound.waits i hcall
          obtain rfl := some.inj (ht.symm.trans hv)
          exact hne hpending hready'
        · exact hok i hcall
    · exact hthere

theorem fed_start : Fed {} := by
  refine ⟨fun _ k i hk => ?_, fun i hi => ?_⟩
  · cases hk
  · cases hi

/-! ## A tail outlives its readers -/

/-- The subscription's tail is open, its session's in the table, and counts it. -/
def FedNow (s : IndexTailService) (k : Nat) (u : TailSubscription) : Prop :=
  ∃ t : SessionTail, s.tails[u.tail]? = some t ∧ t.closed = false ∧
    s.table.lookup t.sessionId = some u.tail ∧ k ∈ t.subscribers

/-- At most one tail of a session is open, the one in the table. -/
structure OneOpen (s : IndexTailService) : Prop where
  tabled : ∀ (i : Nat) (t : SessionTail), s.tails[i]? = some t → t.closed = false →
    s.table.lookup t.sessionId = some i
  unique : ∀ (i j : Nat) (t u : SessionTail), s.tails[i]? = some t → s.tails[j]? = some u →
    t.closed = false → u.closed = false → t.sessionId = u.sessionId → i = j

/-- A tail is closed only where no reader is left, where its socket refused before its first
snapshot, or with the service; and subscriptions are fed, from the step that returns them on. -/
structure Outlives (s : IndexTailService) : Prop where
  closes : ∀ e s', LeavesNoneWaiting s e → s.next e = some s' →
    ∀ (i : Nat) (t t' : SessionTail), s.tails[i]? = some t → s'.tails[i]? = some t' →
      t.closed = false → t'.closed = true →
        Idle s' i ∨ (∃ error, e = .error i error ∧ t.ready = .pending) ∨ e = .dispose
  fed : s.disposed = false → ∀ (k : Nat) (u : TailSubscription),
    s.subscriptions[k]? = some u → u.disposed = false → FedNow s k u
  returns : ∀ c s', s.next (.resume c) = some s' → ∀ k : Nat, s'.calls[c]? = some (.returned k) →
      ∃ u, s'.subscriptions[k]? = some u ∧ u.disposed = false ∧ FedNow s' k u

theorem Sound.oneOpen (h : Sound s) : OneOpen s := by
  refine ⟨h.tabled, fun i j t u ht hu hopen hopen' hsession => ?_⟩
  have hi := h.tabled i t ht hopen
  rw [hsession, h.tabled j u hu hopen'] at hi
  exact (some.inj hi).symm

theorem Sound.fedNow {u : TailSubscription} (h : Sound s) (hk : s.subscriptions[k]? = some u)
    (hlive : u.disposed = false) (ht : s.tails[u.tail]? = some t) (hopen : t.closed = false) :
    FedNow s k u := by
  refine ⟨t, ht, hopen, h.tabled u.tail t ht hopen, ((h.installed u.tail t ht).2 k).mpr ?_⟩
  rw [hk, ← hlive]

theorem thrown_releaseIfIdle {error : IndexRefusal} (hc : s.calls[c]? = some (.thrown error)) :
    (s.releaseIfIdle i).calls[c]? = some (.thrown error) := by
  have hchange : (s.change i SessionTail.close).calls[c]? = some (.thrown error) := by
    show (s.calls.map _)[c]? = _
    rw [List.getElem?_map, hc]
    rfl
  unfold IndexTailService.releaseIfIdle
  split
  · exact hc
  · split
    · exact hc
    · dsimp only
      split <;> exact hchange

theorem Fed.returns (h : Fed s) (hsound : Sound s) (hs : s.resume c = some s')
    (hk : s'.calls[c]? = some (.returned k)) :
    ∃ u, s'.subscriptions[k]? = some u ∧ u.disposed = false ∧ FedNow s' k u := by
  have hsound' := hsound.resume hs
  unfold IndexTailService.resume at hs
  split at hs
  · next i hi =>
    obtain rfl := some.inj hs
    have hlt : c < s.calls.length := (List.getElem?_eq_some_iff.mp hi).1
    have hlast : some (SubscribeCall.returned s.subscriptions.length) = some (.returned k) :=
      (List.getElem?_set_self hlt).symm.trans hk
    obtain rfl := SubscribeCall.returned.inj (some.inj hlast)
    obtain ⟨t, ht, hopen⟩ := h.opened i (mem_of_getElem? hi)
    have hu := (@getElem?_snoc TailSubscription s.subscriptions s.subscriptions.length ⟨i, false⟩
      ⟨i, false⟩).mpr (.inr ⟨rfl, rfl⟩)
    refine ⟨_, hu, rfl, hsound'.fedNow (t := { t with
      subscribers := t.subscribers ++ [s.subscriptions.length] }) hu rfl ?_ hopen⟩
    refine (List.getElem?_modify _ i s.tails i).trans ?_
    rw [ht]
    exact congrArg some (if_pos rfl)
  · next i error hi =>
    obtain rfl := some.inj hs
    have hlt : c < s.calls.length := (List.getElem?_eq_some_iff.mp hi).1
    have hthrown : (s.calls.set c (.thrown error))[c]? = some (.thrown error) :=
      List.getElem?_set_self hlt
    rw [@thrown_releaseIfIdle { s with calls := s.calls.set c (.thrown error) } i c error
      hthrown] at hk
    cases some.inj hk
  · cases hs

theorem Fed.outlives (h : Fed s) (hsound : Sound s) : Outlives s := by
  refine ⟨fun e s' hok hs i t t' ht ht' hopen hclosed => ?_, fun hlive k u hk hu => ?_,
    fun c s' hs k hk => ?_⟩
  · obtain ⟨t'', ht'', hcloses⟩ := (steps_next hsound hok hs).tails i t ht
    obtain rfl := some.inj (ht'.symm.trans ht'')
    rcases hcloses hopen hclosed with hidle | ⟨error, heq, hready, -⟩ | ⟨heq, -⟩
    · exact .inl hidle
    · exact .inr (.inl ⟨error, heq, hready⟩)
    · exact .inr (.inr heq)
  · obtain ⟨t, ht, hopen⟩ := h.subscriptions hlive k u.tail (by rw [hk, ← hu])
    exact hsound.fedNow hk hu ht hopen
  · exact h.returns hsound hs hk

/-- Whatever happens, a session has at most one open tail, the one in the table.  And where readers
leave no call waiting, a tail is closed only when no reader is left on it, when its socket refused
or with the service, and every subscription that is returned is fed by an open tail. -/
theorem tail_outlives_readers (s : IndexTailService) :
    (indexTailMachine.Reachable s → OneOpen s) ∧
      (indexTailMachine.Reaches LeavesNoneWaiting s → Outlives s) := by
  constructor
  · intro hs
    have hsound : Sound s := hs.invariant .start fun _ _ _ h hnext => h.next hnext
    exact hsound.oneOpen
  · intro hs
    have hboth : Sound s ∧ Fed s :=
      hs.invariant (P := fun s => Sound s ∧ Fed s) ⟨.start, fed_start⟩
        fun _ _ _ h hok hnext => ⟨h.1.next hnext, h.2.next h.1 hok hnext⟩
    exact hboth.2.outlives hboth.1

/-! ## Two readers of one session -/

namespace TailSample

def ready : RosettadState := ⟨.ready, none, some "http://127.0.0.1:4100", some "token"⟩

def one : List TailEvent := [.subscribe "session" (some ready), .snapshot 0, .resume 0]

def pulled : List TailEvent :=
  one ++ [.subscribe "session" (some ready), .disposeSubscription 0, .resume 1]

def orphaned (s : IndexTailService) : Bool :=
  !s.disposed && s.calls.any fun call =>
    match call with
    | .returned k => (s.subscriptions[k]?).any fun u =>
      !u.disposed && (s.tails[u.tail]?).any SessionTail.closed
    | _ => false

end TailSample

/-- The subscription that a reader is returned is fed. -/
theorem tail_outlives_readers_one :
    ∃ s, indexTailMachine.Reaches LeavesNoneWaiting s ∧ s.subscriptions = [⟨0, false⟩] ∧
      OneOpen s ∧ Outlives s := by
  have hcalled : indexTailMachine.Reaches LeavesNoneWaiting
      (IndexTailService.subscribe {} "session" (some TailSample.ready)) :=
    .next .start (e := .subscribe "session" (some TailSample.ready)) trivial rfl
  have hopened := hcalled.next (e := TailEvent.snapshot 0) trivial rfl
  have hreturned := hopened.next (e := TailEvent.resume 0) (fun i error t hc => by cases hc) rfl
  exact ⟨_, hreturned, rfl, (tail_outlives_readers _).1 hreturned.reachable,
    (tail_outlives_readers _).2 hreturned⟩

/-- The first reader leaves while the second is to go on, and closes the tail under it. -/
theorem tail_pulled_away :
    ∃ s, indexTailMachine.Reachable s ∧ TailSample.orphaned s = true :=
  Machine.exists_of_run TailSample.orphaned TailSample.pulled (by decide)

end VibeField.Fieldd
