import VibeField.Fieldd.SystemDocKept

/-!
# What a system document's file gives back

Steps of the file: what a write that resolves has landed, what a load answers, and what the renames
do to the last good copy.
-/

namespace VibeField.Fieldd

open List Option

variable {s s' : SystemDocFile} {posix ok : Bool}

namespace SystemDocFile

def Answers (s : SystemDocFile) : Option Nat → Prop
  | some n => s.Covers n
  | none => s.resolved = []

/-- A step of the document's file. -/
structure KeepsDocument (s : SystemDocFile) (e : DocFileEvent) (s' : SystemDocFile) : Prop where
  resolves : ∀ w, s.running = some w → s'.resolved = s.resolved ++ [w.snapshot] →
    s'.current = some ⟨w.snapshot, .good⟩ ∧ ∀ asked ∈ w.asked, asked ≤ w.snapshot
  answers : ∀ answer, s'.answers = s.answers ++ [answer] → s.Answers answer
  lastGood : (∀ which, e ≠ .tear which ∧ e ≠ .fault which) → ∀ g, goodCopy s.lastGood = some g →
    ∃ g', goodCopy s'.lastGood = some g'

theorem ne_snoc {α : Type} {l l' : List α} {a : α} (h : l' = l) : l' ≠ l ++ [a] := by
  intro heq
  have hlen := congrArg List.length (h.symm.trans heq)
  rw [length_append, length_singleton] at hlen
  omega

variable {e : DocFileEvent}

theorem KeepsDocument.of_same (hresolved : s'.resolved = s.resolved)
    (hanswers : s'.answers = s.answers) (hlast : s'.lastGood = s.lastGood) :
    KeepsDocument s e s' where
  resolves := fun _ _ heq => absurd heq (ne_snoc hresolved)
  answers := fun _ heq => absurd heq (ne_snoc hanswers)
  lastGood := fun _ g hg => ⟨g, hlast ▸ hg⟩

theorem Copies.answers_none (h : Copies s) (hcurrent : goodCopy s.current = none)
    (hlast : goodCopy s.lastGood = none) : s.Answers none := by
  rcases h.behind hcurrent with ⟨g, hg, -⟩ | hnil
  · cases hlast.symm.trans hg
  · exact hnil

theorem nextCopy_answers {t : SystemDocFile} {which : Which} {answer : Option Nat}
    (ht : t.answers = s.answers)
    (heq : (t.nextCopy which).answers = s.answers ++ [answer]) :
    which = .lastGood ∧ answer = none := by
  cases which with
  | current => exact absurd heq (ne_snoc ht)
  | lastGood =>
    have heq' : t.answers ++ [none] = s.answers ++ [answer] := heq
    rw [ht] at heq'
    refine ⟨rfl, ?_⟩
    exact (singleton_inj.mp (append_cancel_left heq')).symm

theorem Kept.keepsDocument_load (h : Kept s) (hs : LoadStep s s') :
    KeepsDocument s (.load ok) s' := by
  have hresolves : ∀ w, s.running = some w → s'.resolved = s.resolved ++ [w.snapshot] →
      s'.current = some ⟨w.snapshot, .good⟩ ∧ ∀ asked ∈ w.asked, asked ≤ w.snapshot :=
    fun w _ heq => absurd heq (ne_snoc hs.frame.resolved)
  -- a copy passed over at its read or its rename is not good
  have hover : ∀ {which : Which} {t : SystemDocFile} {answer : Option Nat},
      (s.process = .loading (.reading which) ∨ s.process = .loading (.moving which)) →
      goodCopy (s.file which) = none → t.answers = s.answers →
      (t.nextCopy which).answers = s.answers ++ [answer] →
      s.Answers answer := by
    intro which t answer hp hbad ht heq
    obtain ⟨rfl, rfl⟩ := nextCopy_answers ht heq
    exact h.copies.answers_none (h.loads.second hp) hbad
  refine ⟨hresolves, ?_, ?_⟩
  · intro answer heq
    cases hs with
    | swept tmp hp => exact absurd heq (ne_snoc rfl)
    | absent which hp hfile => exact hover (Or.inl hp) (by rw [hfile]; rfl) rfl heq
    | took which n hp hfile =>
      obtain rfl := singleton_inj.mp (append_cancel_left heq)
      cases which with
      | current => exact h.copies.current n hfile
      | lastGood =>
        rcases h.copies.behind (h.loads.second (Or.inl hp)) with ⟨g, hg, hcov⟩ | hnil
        · obtain rfl := some.inj (hg.symm.trans hfile)
          exact hcov
        · intro m hm
          rw [hnil] at hm
          cases hm
    | refused which hp hfile => exact absurd heq (ne_snoc rfl)
    | unread which hp hfile =>
      refine hover (Or.inl hp) hfile ?_ heq
      rfl
    | moved which hp =>
      refine hover (Or.inr hp) (h.loads.torn which hp) ?_ heq
      cases which <;> rfl
    | stuck which hp =>
      refine hover (Or.inr hp) (h.loads.torn which hp) ?_ heq
      rfl
  · intro _ g hg
    have hsame : ∀ {which : Which} {t : SystemDocFile},
        (t.nextCopy which).lastGood = t.lastGood := by
      intro which t
      cases which <;> rfl
    cases hs with
    | absent which => exact ⟨g, by rw [hsame]; exact hg⟩
    | unread which => exact ⟨g, by rw [SystemDocFile.leave, hsame]; exact hg⟩
    | stuck which => exact ⟨g, by rw [SystemDocFile.leave, hsame]; exact hg⟩
    | moved which hp =>
      rw [hsame]
      cases which with
      | current => exact ⟨g, hg⟩
      | lastGood => cases (h.loads.torn .lastGood hp).symm.trans hg
    | _ => exact ⟨g, hg⟩

theorem KeepsDocument.of_damage {which : Which} {state : CopyState}
    (he : e = .tear which ∨ e = .fault which) (hs : s.damage which state = some s') :
    KeepsDocument s e s' := by
  unfold SystemDocFile.damage at hs
  split at hs
  · obtain rfl := some.inj hs
    refine ⟨fun _ _ heq => absurd heq (ne_snoc ?_), fun _ heq => absurd heq (ne_snoc ?_), ?_⟩
    · cases which <;> rfl
    · cases which <;> rfl
    · intro hne
      rcases he with rfl | rfl
      · exact absurd rfl (hne which).1
      · exact absurd rfl (hne which).2
  · cases hs

theorem KeepsDocument.of_resolve {t : SystemDocFile} {w : DocWrite}
    (h : Staged s w) (hw : s.running = some w) (hanswers : t.answers = s.answers)
    (hlast : t.lastGood = s.lastGood) (hcurrent : t.current = some ⟨w.snapshot, .good⟩) :
    KeepsDocument s e (t.resolve w) where
  resolves := by
    intro w' hw' _
    obtain rfl := some.inj (hw.symm.trans hw')
    exact ⟨hcurrent, h.asked⟩
  answers := fun _ heq => absurd heq (ne_snoc hanswers)
  lastGood := fun _ g hg => ⟨g, hlast ▸ hg⟩

theorem Kept.keepsDocument_keep {w : DocWrite} (h : Kept s)
    (hp : s.process = .ready) (hclear : s.inPlace = false) :
    KeepsDocument s e (s.keepCurrent.goTo w .landing) := by
  have hanswers : s.keepCurrent.answers = s.answers := by
    unfold SystemDocFile.keepCurrent
    split <;> rfl
  refine ⟨fun _ _ heq => absurd heq (ne_snoc keepCurrent_frame.resolved),
    fun _ heq => absurd heq (ne_snoc hanswers), fun _ g hg => ?_⟩
  show ∃ g', goodCopy s.keepCurrent.lastGood = some g'
  cases hc : s.current with
  | none =>
    rw [keepCurrent_of_none hc]
    exact ⟨g, hg⟩
  | some copy =>
    rw [keepCurrent_of_some hc]
    refine ne_none_iff_exists'.mp ?_
    intro hnone
    rw [h.loads.inPlace (Or.inl hp) (by rw [hc]; rfl) (hc ▸ hnone)] at hclear
    cases hclear

theorem Kept.keepsDocument_write (h : Kept s) (hclear : s.clear (.write ok) = true)
    (hs : s.write posix ok = some s') : KeepsDocument s (.write ok) s' := by
  obtain ⟨⟨n, asked, stage⟩, hw, rfl⟩ := map_eq_some_iff.mp hs
  obtain ⟨hp, hstaged⟩ := h.writes.running _ hw
  cases stage with
  | keeping =>
    cases ok with
    | false => exact .of_same rfl rfl rfl
    | true =>
      refine h.keepsDocument_keep hp ?_
      unfold clear at hclear
      rw [hw] at hclear
      simpa using hclear
  | landing =>
    cases ok with
    | false => exact .of_same rfl rfl rfl
    | true =>
      cases posix with
      | true => exact .of_same rfl rfl rfl
      | false => exact .of_resolve hstaged hw rfl rfl (hstaged.filled rfl)
  | dirClosing failed =>
    cases failed with
    | true => exact .of_same rfl rfl rfl
    | false =>
      cases ok with
      | false => exact .of_same rfl rfl rfl
      | true => exact .of_resolve hstaged hw rfl rfl (hstaged.landed rfl)
  | closing failed => cases failed <;> cases ok <;> exact .of_same rfl rfl rfl
  | _ => cases ok <;> exact .of_same rfl rfl rfl

theorem Kept.keepsDocument (h : Kept s) (hcareful : s.careful e = true)
    (hs : (docFileMachine posix).next s e = some s') : KeepsDocument s e s' := by
  cases e with
  | load ok => exact h.keepsDocument_load (load_step hs)
  | write ok => exact h.keepsDocument_write (Bool.and_eq_true_iff.mp hcareful).2 hs
  | crash =>
    obtain rfl := some.inj hs
    exact .of_same rfl rfl rfl
  | boot =>
    replace hs : s.boot = some s' := hs
    unfold SystemDocFile.boot at hs
    split at hs
    · obtain rfl := some.inj hs
      exact .of_same rfl rfl rfl
    · cases hs
  | reload =>
    replace hs : s.reload = some s' := hs
    unfold SystemDocFile.reload at hs
    split at hs
    · obtain rfl := some.inj hs
      exact .of_same rfl rfl rfl
    · cases hs
  | persist =>
    replace hs : s.persist = some s' := hs
    unfold SystemDocFile.persist at hs
    split at hs
    · obtain rfl := some.inj hs
      exact .of_same rfl rfl rfl
    · cases hs
  | begin =>
    replace hs : s.begin = some s' := hs
    unfold SystemDocFile.begin at hs
    split at hs
    · obtain rfl := some.inj hs
      exact .of_same rfl rfl rfl
    · cases hs
  | tear which => exact .of_damage (Or.inl rfl) hs
  | fault which => exact .of_damage (Or.inr rfl) hs

end SystemDocFile
/-- In a run in which the medium damages one of two copies at a time and no write moves a copy the
load left in place, a write that resolves has its snapshot in the current file, taken after every
call it answers; a load returns a snapshot as new as every resolved one that was not damaged, and
nothing only if none was resolved; and a good last-good copy is replaced by a good one only. -/
theorem system_doc_never_lost (posix : Bool) {s s' : SystemDocFile} {e : DocFileEvent}
    (hs : (docFileMachine posix).Reaches (fun s e => s.careful e = true) s)
    (hcareful : s.careful e = true) (hnext : (docFileMachine posix).next s e = some s') :
    s.KeepsDocument e s' :=
  (SystemDocFile.kept_of_reaches hs).keepsDocument hcareful hnext

/-! ## A torn file that could not be moved aside -/

namespace DocFileSample

def twice : List DocFileEvent :=
  [.boot, .load true, .load true, .load true, .persist, .begin] ++
    List.replicate 10 (.write true) ++ [.persist, .begin] ++ List.replicate 9 (.write true)

def fallsBack : List DocFileEvent :=
  twice ++ [.crash, .tear .current, .boot, .load true, .load true, .load true]

def renamed : List DocFileEvent :=
  twice ++ [.crash, .tear .current, .boot, .load true, .load true, .load false, .load true,
    .persist, .begin] ++ List.replicate 6 (.write true) ++
    [.crash, .boot, .load true, .load true, .load true, .load true]

end DocFileSample

/-- The newest file is torn: the snapshot before it loads. -/
theorem system_doc_never_lost_torn :
    ∃ s s' : SystemDocFile, (docFileMachine true).next s (.load true) = some s' ∧
      s.resolved = [0, 1] ∧ s.damaged = [1] ∧ s'.answers = [none, some 0] ∧
      s.KeepsDocument (.load true) s' := by
  obtain ⟨s, hs, hp⟩ := @Machine.exists_of_orderly_run _ _ (docFileMachine true)
    (fun s e => s.careful e = true) _
    (fun s => decide (s.resolved = [0, 1] ∧ s.damaged = [1] ∧
      (s.load true).map SystemDocFile.answers = some [none, some 0]))
    DocFileSample.fallsBack (by decide)
  obtain ⟨hresolved, hdamaged, hload⟩ := of_decide_eq_true hp
  obtain ⟨s', hnext, hanswers⟩ := Option.map_eq_some_iff.mp hload
  exact ⟨s, s', hnext, hresolved, hdamaged, hanswers, system_doc_never_lost true hs rfl hnext⟩

/-- The medium damages one of two good copies, once; after two resolved writes a load returns
nothing. -/
theorem torn_copy_renamed :
    ∃ s, (docFileMachine true).Reaches (fun s e => s.spared e = true) s ∧
      decide (s.resolved = [0, 1] ∧ s.damaged = [1] ∧ s.answers = [none, some 0, none]) = true :=
  Machine.exists_of_orderly_run (fun s e => SystemDocFile.spared s e = true)
    (fun s : SystemDocFile =>
      decide (s.resolved = [0, 1] ∧ s.damaged = [1] ∧ s.answers = [none, some 0, none]))
    DocFileSample.renamed (by decide)

end VibeField.Fieldd
