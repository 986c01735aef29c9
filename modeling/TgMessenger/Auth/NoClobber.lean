import TgMessenger.Auth.SessionStore
import Mathlib.Algebra.Order.Ring.Nat

/-!
# Publications

Whoever changes the file holds the lock, so what a call has seen of the file under the lock
is still so when it publishes; and it publishes its temporary file, which then holds all of
its text.
-/

namespace TgMessenger.SessionStore

/-! ## Calls -/

/-- What is so of a call in this phase: which temporary file it has, whether it holds the
lock, and what it knows of the file of the profile. -/
def Phase.Fits (w : World) (i : ℕ) : Phase → Prop
  | .begun job => w.temps i = none ∧ job.text ∈ w.texts
  | .writing job => job.text ∈ w.texts
  | .ready job => w.temps i = some job.text ∧ job.text ∈ w.texts
  | .locked job | .fallback job =>
    w.lock = some i ∧ w.temps i = some job.text ∧ job.text ∈ w.texts
  | .absent job =>
    w.lock = some i ∧ w.temps i = some job.text ∧ job.text ∈ w.texts ∧ w.file = none
  | .linked job before => w.lock = some i ∧ (job.kind = .ifAbsent → before = none)
  | .published job before =>
    w.lock = some i ∧ w.temps i = none ∧ (job.kind = .ifAbsent → before = none)
  | .deleteLocked | .deleteFound => w.lock = some i ∧ w.temps i = none
  | .deleting | .deleteReady | .loading | .reading => w.temps i = none
  | .failing | .ended .littered | .ended .crashed => True
  | .ended (.saved job before) => w.temps i = none ∧ (job.kind = .ifAbsent → before = none)
  | .ended _ => w.temps i = none

/-- A writer is over. -/
theorem fits_saved {w : World} {i : ℕ} {job : Job} {before : Option String}
    (htemp : w.temps i = none) (hbefore : job.kind = .ifAbsent → before = none) :
    (Phase.ended (World.saved job before)).Fits w i := by
  unfold World.saved
  split
  · exact htemp
  · exact ⟨htemp, hbefore⟩

/-- What other calls do leaves a call what it has. -/
theorem Phase.Fits.mono {w w' : World} {i : ℕ} {phase : Phase} (h : phase.Fits w i)
    (htemp : w'.temps i = w.temps i) (htexts : w.texts ⊆ w'.texts)
    (hlock : w.lock = some i → w'.lock = some i ∧ w'.file = w.file) : phase.Fits w' i := by
  cases phase with
  | begun job => exact ⟨htemp.trans h.1, htexts h.2⟩
  | writing job => exact htexts h
  | ready job => exact ⟨htemp.trans h.1, htexts h.2⟩
  | locked job | fallback job => exact ⟨(hlock h.1).1, htemp.trans h.2.1, htexts h.2.2⟩
  | absent job =>
    exact ⟨(hlock h.1).1, htemp.trans h.2.1, htexts h.2.2.1, (hlock h.1).2.trans h.2.2.2⟩
  | linked job before => exact ⟨(hlock h.1).1, h.2⟩
  | published job before => exact ⟨(hlock h.1).1, htemp.trans h.2.1, h.2.2⟩
  | deleteLocked | deleteFound => exact ⟨(hlock h.1).1, htemp.trans h.2⟩
  | deleting | deleteReady | loading | reading => exact htemp.trans h
  | failing => exact trivial
  | ended outcome =>
    cases outcome with
    | saved job before => exact ⟨htemp.trans h.1, h.2⟩
    | littered | crashed => exact trivial
    | removed | loaded | raised => exact htemp.trans h

/-- A call is the one that went on, or one that stays as it was. -/
theorem call_of_update {calls : ℕ → Option Call} {i j : ℕ} {c c' : Call}
    (h : Function.update calls i (some c') j = some c) :
    j = i ∧ c = c' ∨ j ≠ i ∧ calls j = some c := by
  rw [Function.update_apply] at h
  split_ifs at h with hj
  · exact .inl ⟨hj, (Option.some.inj h).symm⟩
  · exact .inr ⟨hj, h⟩

/-- What a call may change beside its phase: its temporary file, the lock when no other call
has it, and the file when it has the lock itself. -/
structure Near (i : ℕ) (w w' : World) : Prop where
  calls : w'.calls = w.calls
  next : w.next ≤ w'.next
  texts : w.texts ⊆ w'.texts
  temps : ∀ j ≠ i, w'.temps j = w.temps j
  lock : ∀ j ≠ i, w.lock = some j → w'.lock = some j ∧ w'.file = w.file
  whole : ∀ text, w'.file = some text → w.file = some text ∨ text ∈ w'.texts

namespace Near

variable {w : World} {i : ℕ}

theorem refl (i : ℕ) (w : World) : Near i w w :=
  ⟨rfl, le_rfl, fun _ ↦ id, fun _ _ ↦ rfl, fun _ _ h ↦ ⟨h, rfl⟩, fun _ ↦ .inl⟩

theorem trans {w' w'' : World} (h : Near i w w') (h' : Near i w' w'') : Near i w w'' where
  calls := h'.calls.trans h.calls
  next := h.next.trans h'.next
  texts _ hin := h'.texts (h.texts hin)
  temps j hj := (h'.temps j hj).trans (h.temps j hj)
  lock j hj hlock := by
    obtain ⟨hlock', hfile⟩ := h.lock j hj hlock
    obtain ⟨hlock'', hfile'⟩ := h'.lock j hj hlock'
    exact ⟨hlock'', hfile'.trans hfile⟩
  whole text htext := by
    rcases h'.whole text htext with hmid | hnew
    · exact (h.whole text hmid).imp_right fun hin ↦ h'.texts hin
    · exact .inr hnew

theorem setTemp (i : ℕ) (w : World) (temp : Option String) : Near i w (w.setTemp i temp) :=
  { refl i w with temps := fun _ hj ↦ Function.update_of_ne hj .. }

theorem release (i : ℕ) (w : World) : Near i w (w.release i) := by
  refine { refl i w with lock := ?_ }
  intro j hj hlock
  refine ⟨?_, rfl⟩
  rw [World.release, hlock, if_neg fun h ↦ hj (Option.some.inj h)]

theorem acquire (i : ℕ) (hlock : w.lock = none) : Near i w { w with lock := some i } :=
  { refl i w with lock := fun _ _ h ↦ nomatch hlock.symm.trans h }

/-- A call is added. -/
theorem count (i : ℕ) (w : World) : Near i w { w with next := w.next + 1 } :=
  { refl i w with next := w.next.le_succ }

/-- A writer has its text. -/
theorem note (i : ℕ) (w : World) (text : String) :
    Near i w { w with texts := text :: w.texts } :=
  { refl i w with texts := fun _ ↦ .tail _, whole := fun _ ↦ .inl }

/-- With the lock a call may change the file. -/
theorem publish {job : Job} {text : String} (hlock : w.lock = some i) (htext : text ∈ w.texts) :
    Near i w (w.publish job text) := by
  refine { refl i w with lock := ?_, whole := ?_ }
  · intro j hj h
    exact absurd (Option.some.inj (hlock.symm.trans h)) hj.symm
  · intro text' h
    exact .inr (Option.some.inj h ▸ htext)

theorem remove {changes : List Change} (hlock : w.lock = some i) :
    Near i w { w with file := none, changes := changes } := by
  refine { refl i w with lock := ?_, whole := ?_ }
  · intro j hj h
    exact absurd (Option.some.inj (hlock.symm.trans h)) hj.symm
  · intro text h
    exact nomatch h

end Near

/-- Every call is as its phase says, and the file holds the whole text of a writer. -/
structure Guarded (file : Option String) (w : World) : Prop where
  calls : ∀ i c, w.calls i = some c → c.phase.Fits w i
  fresh : ∀ i, w.next ≤ i → w.calls i = none
  owned : ∀ i, w.calls i = none → w.temps i = none
  whole : ∀ text, w.file = some text → file = some text ∨ text ∈ w.texts

namespace Guarded

variable {codec : Codec} {file : Option String} {w w' : World} {i : ℕ} {key : Option String}

theorem init (file : Option String) : Guarded file (.init file) where
  calls _ _ h := nomatch h
  fresh _ _ := rfl
  owned _ _ := rfl
  whole _ h := .inl h

/-- A call goes on. -/
theorem goTo (h : Guarded file w) (hnear : Near i w w') (hi : i < w'.next) {phase : Phase}
    (hphase : phase.Fits w' i) : Guarded file (w'.goTo i key phase) := by
  refine ⟨?_, ?_, ?_, ?_⟩
  · intro j c hc
    rcases call_of_update hc with ⟨rfl, rfl⟩ | ⟨hj, hc⟩
    · exact hphase.mono rfl (fun _ ↦ id) fun hheld ↦ ⟨hheld, rfl⟩
    · rw [hnear.calls] at hc
      exact (h.calls j c hc).mono (hnear.temps j hj) hnear.texts (hnear.lock j hj)
  · intro j hj
    show Function.update w'.calls i (some ⟨key, phase⟩) j = none
    rw [Function.update_of_ne (hi.trans_le hj).ne', hnear.calls]
    exact h.fresh j (hnear.next.trans hj)
  · intro j hj
    have hj : Function.update w'.calls i (some ⟨key, phase⟩) j = none := hj
    rw [Function.update_apply, hnear.calls] at hj
    split_ifs at hj with hne
    exact (hnear.temps j hne).trans (h.owned j hj)
  · intro text htext
    rcases hnear.whole text htext with hold | hnew
    · exact (h.whole text hold).imp_right fun hin ↦ hnear.texts hin
    · exact .inr hnew

/-- A call has something to write. -/
theorem begin (h : Guarded file w) (hnear : Near i w w') (hi : i < w'.next)
    (htemp : w'.temps i = none) (job : Job) : Guarded file (w'.begin i key job) :=
  h.goTo (hnear.trans (.note i w' job.text)) hi ⟨htemp, .head _⟩

theorem start (h : Guarded file w) (method : Method) (key : Option String) (noise : ℕ) :
    Guarded file (w.start codec method key noise) := by
  have hfree := h.owned w.next (h.fresh w.next le_rfl)
  have hi : w.next < w.next + 1 := w.next.lt_succ_self
  cases method with
  | save session => exact h.begin (.count _ w) hi hfree _
  | saveIfAbsent session => exact h.begin (.count _ w) hi hfree _
  | delete => exact h.goTo (.count _ w) hi hfree
  | load => exact h.goTo (.count _ w) hi hfree

theorem loaded (h : Guarded file w) (hi : i < w.next) (htemp : w.temps i = none) (noise : ℕ)
    (text : String) : Guarded file (w.loaded codec i key noise text) := by
  unfold World.loaded
  split
  · exact h.goTo (.refl i w) hi htemp
  · exact h.goTo (.refl i w) hi htemp
  · exact h.goTo (.refl i w) hi htemp
  · exact h.begin (.refl i w) hi htemp _

/-- The temporary file of a call is put in place. -/
theorem replace (h : Guarded file w) (hi : i < w.next) {job : Job} (hlock : w.lock = some i)
    (htemp : w.temps i = some job.text) (htext : job.text ∈ w.texts)
    (hkind : job.kind = .ifAbsent → w.file = none) (hs : w.replace i key job = some w') :
    Guarded file w' := by
  rw [World.replace, htemp] at hs
  obtain rfl := Option.some.inj hs
  refine h.goTo ((Near.publish hlock htext).trans (.setTemp i _ none)) hi ⟨hlock, ?_, hkind⟩
  exact Function.update_self ..

/-! ### A call, phase by phase -/

theorem begun (h : Guarded file w) (hi : i < w.next) {job : Job}
    (hfits : (Phase.begun job).Fits w i) {m : Move}
    (hs : w.advance codec i key (.begun job) m = some w') : Guarded file w' := by
  cases m with
  | create =>
    obtain rfl := Option.some.inj hs
    exact h.goTo (.setTemp i w _) hi hfits.2
  | fail =>
    obtain rfl := Option.some.inj hs
    exact h.goTo (.refl i w) hi hfits.1
  | crash =>
    obtain rfl := Option.some.inj hs
    exact h.goTo (.release i w) hi trivial
  | _ => cases hs

theorem writing (h : Guarded file w) (hi : i < w.next) {job : Job}
    (hfits : (Phase.writing job).Fits w i) {m : Move}
    (hs : w.advance codec i key (.writing job) m = some w') : Guarded file w' := by
  cases m with
  | write text =>
    obtain ⟨-, hs⟩ := Option.ite_none_right_eq_some.mp hs
    obtain rfl := Option.some.inj hs
    exact h.goTo (.setTemp i w _) hi hfits
  | flush =>
    obtain rfl := Option.some.inj hs
    refine h.goTo (.setTemp i w _) hi ⟨?_, hfits⟩
    exact Function.update_self ..
  | fail =>
    obtain rfl := Option.some.inj hs
    exact h.goTo (.refl i w) hi trivial
  | crash =>
    obtain rfl := Option.some.inj hs
    exact h.goTo (.release i w) hi trivial
  | _ => cases hs

theorem ready (h : Guarded file w) (hi : i < w.next) {job : Job}
    (hfits : (Phase.ready job).Fits w i) {m : Move}
    (hs : w.advance codec i key (.ready job) m = some w') : Guarded file w' := by
  cases m with
  | acquire =>
    obtain ⟨hfree, hs⟩ := Option.ite_none_right_eq_some.mp hs
    obtain rfl := Option.some.inj hs
    exact h.goTo (.acquire i hfree) hi ⟨rfl, hfits⟩
  | fail =>
    obtain rfl := Option.some.inj hs
    exact h.goTo (.refl i w) hi trivial
  | crash =>
    obtain rfl := Option.some.inj hs
    exact h.goTo (.release i w) hi trivial
  | _ => cases hs

theorem locked (h : Guarded file w) (hi : i < w.next) {job : Job}
    (hfits : (Phase.locked job).Fits w i) {m : Move}
    (hs : w.advance codec i key (.locked job) m = some w') : Guarded file w' := by
  obtain ⟨hlock, htemp, htext⟩ := hfits
  cases m with
  | replace =>
    obtain ⟨hkind, hs⟩ := Option.ite_none_left_eq_some.mp hs
    exact h.replace hi hlock htemp htext (fun h ↦ absurd h hkind) hs
  | link =>
    obtain ⟨-, hs⟩ := Option.ite_none_right_eq_some.mp hs
    split at hs
    · next hfile =>
      rw [htemp] at hs
      obtain rfl := Option.some.inj hs
      exact h.goTo (.publish hlock htext) hi ⟨hlock, fun _ ↦ hfile⟩
    · obtain rfl := Option.some.inj hs
      exact h.goTo (.release i w) hi trivial
  | noLink =>
    obtain ⟨-, hs⟩ := Option.ite_none_right_eq_some.mp hs
    obtain rfl := Option.some.inj hs
    exact h.goTo (.refl i w) hi ⟨hlock, htemp, htext⟩
  | fail | crash =>
    obtain rfl := Option.some.inj hs
    exact h.goTo (.release i w) hi trivial
  | _ => cases hs

theorem fallback (h : Guarded file w) (hi : i < w.next) {job : Job}
    (hfits : (Phase.fallback job).Fits w i) {m : Move}
    (hs : w.advance codec i key (.fallback job) m = some w') : Guarded file w' := by
  obtain ⟨hlock, htemp, htext⟩ := hfits
  cases m with
  | lookup =>
    obtain rfl := Option.some.inj hs
    split_ifs with hfile
    · exact h.goTo (.release i w) hi trivial
    · exact h.goTo (.refl i w) hi ⟨hlock, htemp, htext, Option.not_isSome_iff_eq_none.mp hfile⟩
  | fail | crash =>
    obtain rfl := Option.some.inj hs
    exact h.goTo (.release i w) hi trivial
  | _ => cases hs

theorem absent (h : Guarded file w) (hi : i < w.next) {job : Job}
    (hfits : (Phase.absent job).Fits w i) {m : Move}
    (hs : w.advance codec i key (.absent job) m = some w') : Guarded file w' := by
  obtain ⟨hlock, htemp, htext, hfile⟩ := hfits
  cases m with
  | replace => exact h.replace hi hlock htemp htext (fun _ ↦ hfile) hs
  | fail | crash =>
    obtain rfl := Option.some.inj hs
    exact h.goTo (.release i w) hi trivial
  | _ => cases hs

theorem linked (h : Guarded file w) (hi : i < w.next) {job : Job} {before : Option String}
    (hfits : (Phase.linked job before).Fits w i) {m : Move}
    (hs : w.advance codec i key (.linked job before) m = some w') : Guarded file w' := by
  cases m with
  | unlink =>
    obtain rfl := Option.some.inj hs
    refine h.goTo (.setTemp i w _) hi ⟨hfits.1, ?_, hfits.2⟩
    exact Function.update_self ..
  | fail | crash =>
    obtain rfl := Option.some.inj hs
    exact h.goTo (.release i w) hi trivial
  | _ => cases hs

theorem published (h : Guarded file w) (hi : i < w.next) {job : Job} {before : Option String}
    (hfits : (Phase.published job before).Fits w i) {m : Move}
    (hs : w.advance codec i key (.published job before) m = some w') : Guarded file w' := by
  cases m with
  | sync =>
    obtain rfl := Option.some.inj hs
    exact h.goTo (.release i w) hi (fits_saved hfits.2.1 hfits.2.2)
  | fail | crash =>
    obtain rfl := Option.some.inj hs
    exact h.goTo (.release i w) hi trivial
  | _ => cases hs

theorem failing (h : Guarded file w) (hi : i < w.next) {m : Move}
    (hs : w.advance codec i key .failing m = some w') : Guarded file w' := by
  cases m with
  | unlink =>
    obtain rfl := Option.some.inj hs
    have hremoved : (w.setTemp i none).temps i = none := Function.update_self ..
    exact h.goTo (.setTemp i w _) hi hremoved
  | fail =>
    obtain rfl := Option.some.inj hs
    exact h.goTo (.refl i w) hi trivial
  | crash =>
    obtain rfl := Option.some.inj hs
    exact h.goTo (.release i w) hi trivial
  | _ => cases hs

theorem deleting (h : Guarded file w) (hi : i < w.next) (hfits : Phase.deleting.Fits w i)
    {m : Move} (hs : w.advance codec i key .deleting m = some w') : Guarded file w' := by
  cases m with
  | lookup =>
    obtain rfl := Option.some.inj hs
    refine h.goTo (.refl i w) hi ?_
    split_ifs
    · exact hfits
    · exact hfits
  | fail =>
    obtain rfl := Option.some.inj hs
    exact h.goTo (.refl i w) hi hfits
  | crash =>
    obtain rfl := Option.some.inj hs
    exact h.goTo (.release i w) hi trivial
  | _ => cases hs

theorem deleteReady (h : Guarded file w) (hi : i < w.next) (hfits : Phase.deleteReady.Fits w i)
    {m : Move} (hs : w.advance codec i key .deleteReady m = some w') : Guarded file w' := by
  cases m with
  | acquire =>
    obtain ⟨hfree, hs⟩ := Option.ite_none_right_eq_some.mp hs
    obtain rfl := Option.some.inj hs
    exact h.goTo (.acquire i hfree) hi ⟨rfl, hfits⟩
  | fail =>
    obtain rfl := Option.some.inj hs
    exact h.goTo (.refl i w) hi hfits
  | crash =>
    obtain rfl := Option.some.inj hs
    exact h.goTo (.release i w) hi trivial
  | _ => cases hs

theorem deleteLocked (h : Guarded file w) (hi : i < w.next) (hfits : Phase.deleteLocked.Fits w i)
    {m : Move} (hs : w.advance codec i key .deleteLocked m = some w') : Guarded file w' := by
  cases m with
  | lookup =>
    obtain rfl := Option.some.inj hs
    split_ifs
    · exact h.goTo (.refl i w) hi hfits
    · exact h.goTo (.release i w) hi hfits.2
  | fail =>
    obtain rfl := Option.some.inj hs
    exact h.goTo (.release i w) hi hfits.2
  | crash =>
    obtain rfl := Option.some.inj hs
    exact h.goTo (.release i w) hi trivial
  | _ => cases hs

theorem deleteFound (h : Guarded file w) (hi : i < w.next) (hfits : Phase.deleteFound.Fits w i)
    {m : Move} (hs : w.advance codec i key .deleteFound m = some w') : Guarded file w' := by
  cases m with
  | unlink =>
    obtain rfl := Option.some.inj hs
    exact h.goTo (.trans (.remove hfits.1) (.release i _)) hi hfits.2
  | fail =>
    obtain rfl := Option.some.inj hs
    exact h.goTo (.release i w) hi hfits.2
  | crash =>
    obtain rfl := Option.some.inj hs
    exact h.goTo (.release i w) hi trivial
  | _ => cases hs

theorem loading (h : Guarded file w) (hi : i < w.next) (hfits : Phase.loading.Fits w i)
    {m : Move} (hs : w.advance codec i key .loading m = some w') : Guarded file w' := by
  cases m with
  | lookup =>
    obtain rfl := Option.some.inj hs
    refine h.goTo (.refl i w) hi ?_
    split_ifs
    · exact hfits
    · exact hfits
  | fail =>
    obtain rfl := Option.some.inj hs
    exact h.goTo (.refl i w) hi hfits
  | crash =>
    obtain rfl := Option.some.inj hs
    exact h.goTo (.release i w) hi trivial
  | _ => cases hs

theorem reading (h : Guarded file w) (hi : i < w.next) (hfits : Phase.reading.Fits w i)
    {m : Move} (hs : w.advance codec i key .reading m = some w') : Guarded file w' := by
  cases m with
  | read noise =>
    obtain rfl := Option.some.inj hs
    split
    · exact h.loaded hi hfits _ _
    · exact h.goTo (.refl i w) hi hfits
  | fail =>
    obtain rfl := Option.some.inj hs
    exact h.goTo (.refl i w) hi hfits
  | crash =>
    obtain rfl := Option.some.inj hs
    exact h.goTo (.release i w) hi trivial
  | _ => cases hs

theorem advance (h : Guarded file w) {phase : Phase} (hc : w.calls i = some ⟨key, phase⟩)
    {m : Move} (hs : w.advance codec i key phase m = some w') : Guarded file w' := by
  have hi : i < w.next := by
    by_contra hle
    exact nomatch hc.symm.trans (h.fresh i (not_lt.mp hle))
  have hfits := h.calls i _ hc
  cases phase with
  | begun job => exact h.begun hi hfits hs
  | writing job => exact h.writing hi hfits hs
  | ready job => exact h.ready hi hfits hs
  | locked job => exact h.locked hi hfits hs
  | fallback job => exact h.fallback hi hfits hs
  | absent job => exact h.absent hi hfits hs
  | linked job before => exact h.linked hi hfits hs
  | published job before => exact h.published hi hfits hs
  | failing => exact h.failing hi hs
  | deleting => exact h.deleting hi hfits hs
  | deleteReady => exact h.deleteReady hi hfits hs
  | deleteLocked => exact h.deleteLocked hi hfits hs
  | deleteFound => exact h.deleteFound hi hfits hs
  | loading => exact h.loading hi hfits hs
  | reading => exact h.reading hi hfits hs
  | ended outcome => cases hs

/-! ### One event -/

theorem step (h : Guarded file w) {e : Event} (hs : World.step codec w e = some w') :
    Guarded file w' := by
  cases e with
  | call method key noise =>
    obtain rfl := Option.some.inj hs
    exact h.start method key noise
  | move i m =>
    obtain ⟨c, hc, hs⟩ := Option.bind_eq_some_iff.mp hs
    exact h.advance hc hs

end Guarded

/-! ## The file -/

/-- What a call has still to put in place. -/
def Phase.pending : Phase → Option Job
  | .begun job | .writing job | .ready job | .locked job | .fallback job | .absent job => some job
  | _ => none

/-- What a call has put in place. -/
def Phase.written : Phase → Option Job
  | .linked job _ | .published job _ | .ended (.saved job _) => some job
  | _ => none

/-- What a system call of a call does to the file, and what it leaves the call to do. -/
inductive Effect (codec : Codec) (w : World) (key : Option String) (phase : Phase) (m : Move)
    (w' : World) : Phase → Prop
  | /-- The file stays. -/
    quiet {phase' : Phase} (hfile : w'.file = w.file) (hchanges : w'.changes = w.changes)
      (hpending : ∀ job, phase'.pending = some job → phase.pending = some job)
      (hwritten : ∀ job, phase'.written = some job → phase.written = some job) :
      Effect codec w key phase m w' phase'
  | /-- It is read, and is to be written again. -/
    read {session text : String} {noise : ℕ} (hphase : phase = .reading)
      (hfile : w'.file = w.file) (hchanges : w'.changes = w.changes) (htext : w.file = some text)
      (hread : readSession codec key text = some (some (session, true))) :
      Effect codec w key phase m w'
        (.begun ⟨.rewrite w.changes.length, session, storedSession codec key session noise⟩)
  | /-- It is replaced. -/
    replaced {job : Job} (hmove : m = .replace) (hpending : phase.pending = some job)
      (hphase : phase = .locked job ∧ job.kind ≠ .ifAbsent ∨ phase = .absent job)
      (hfile : w'.file = some job.text) (hchanges : w'.changes = (w.publish job job.text).changes) :
      Effect codec w key phase m w' (.published job w.file)
  | /-- It is new. -/
    linked {job : Job} (hphase : phase = .locked job) (hkind : job.kind = .ifAbsent)
      (hold : w.file = none) (hfile : w'.file = some job.text)
      (hchanges : w'.changes = .saved job.session :: w.changes) :
      Effect codec w key phase m w' (.linked job none)
  | /-- It is removed. -/
    removed (hphase : phase = .deleteFound) (hfile : w'.file = none)
      (hchanges : w'.changes = .deleted :: w.changes) :
      Effect codec w key phase m w' (.ended (.removed true))

section Effects

variable {codec : Codec} {file : Option String} {w w' : World} {i : ℕ} {key : Option String}

theorem replace_effect {phase : Phase} {job : Job} (htemp : w.temps i = some job.text)
    (hphase : phase = .locked job ∧ job.kind ≠ .ifAbsent ∨ phase = .absent job)
    (hs : w.replace i key job = some w') :
    ∃ phase', w'.calls = Function.update w.calls i (some ⟨key, phase'⟩) ∧
      Effect codec w key phase .replace w' phase' := by
  rw [World.replace, htemp] at hs
  obtain rfl := Option.some.inj hs
  refine ⟨_, rfl, .replaced rfl ?_ hphase rfl rfl⟩
  rcases hphase with ⟨rfl, -⟩ | rfl
  · rfl
  · rfl

theorem loaded_effect {text : String} {noise : ℕ} (htext : w.file = some text) :
    ∃ phase', (w.loaded codec i key noise text).calls =
      Function.update w.calls i (some ⟨key, phase'⟩) ∧
        Effect codec w key .reading (.read noise) (w.loaded codec i key noise text) phase' := by
  have hquiet : ∀ outcome, (Phase.ended outcome).written = none →
      Effect codec w key .reading (.read noise) (w.goTo i key (.ended outcome))
        (.ended outcome) := by
    intro outcome hnone
    exact .quiet rfl rfl (fun _ h ↦ nomatch h) fun _ h ↦ nomatch hnone.symm.trans h
  unfold World.loaded
  split
  · exact ⟨_, rfl, hquiet _ rfl⟩
  · exact ⟨_, rfl, hquiet _ rfl⟩
  · exact ⟨_, rfl, hquiet _ rfl⟩
  · next hread => exact ⟨_, rfl, .read rfl rfl rfl htext hread⟩

/-- Only who holds the lock changes the file. -/
theorem advance_effect {phase : Phase} (hfits : phase.Fits w i) {m : Move}
    (hs : w.advance codec i key phase m = some w') :
    ∃ phase', w'.calls = Function.update w.calls i (some ⟨key, phase'⟩) ∧
      Effect codec w key phase m w' phase' := by
  unfold World.advance at hs
  split at hs
  -- The writers.
  case h_1 | h_4 =>
    obtain rfl := Option.some.inj hs
    exact ⟨_, rfl, .quiet rfl rfl (fun _ ↦ id) fun _ ↦ id⟩
  case h_3 | h_5 | h_8 =>
    split_ifs at hs
    obtain rfl := Option.some.inj hs
    exact ⟨_, rfl, .quiet rfl rfl (fun _ ↦ id) fun _ ↦ id⟩
  case h_6 =>
    split_ifs at hs with hkind
    exact replace_effect hfits.2.1 (.inl ⟨rfl, hkind⟩) hs
  case h_7 job =>
    split_ifs at hs with hkind
    split at hs
    case h_1 hfile =>
      rw [hfits.2.1] at hs
      obtain rfl := Option.some.inj hs
      refine ⟨_, rfl, ?_⟩
      rw [hfile]
      refine .linked rfl hkind hfile rfl ?_
      show World.changes (w.publish job job.text) = _
      rw [World.publish, hkind]
    case h_2 =>
      obtain rfl := Option.some.inj hs
      exact ⟨_, rfl, .quiet rfl rfl (fun _ h ↦ nomatch h) fun _ h ↦ nomatch h⟩
  case h_9 =>
    obtain rfl := Option.some.inj hs
    split_ifs
    · exact ⟨_, rfl, .quiet rfl rfl (fun _ h ↦ nomatch h) fun _ h ↦ nomatch h⟩
    · exact ⟨_, rfl, .quiet rfl rfl (fun _ ↦ id) fun _ ↦ id⟩
  case h_10 => exact replace_effect hfits.2.1 (.inr rfl) hs
  case h_11 =>
    obtain rfl := Option.some.inj hs
    exact ⟨_, rfl, .quiet rfl rfl (fun _ ↦ id) fun _ ↦ id⟩
  case h_12 =>
    obtain rfl := Option.some.inj hs
    refine ⟨_, rfl, .quiet rfl rfl (fun _ h ↦ nomatch h) ?_⟩
    intro job' h
    unfold World.saved at h
    split at h
    · exact nomatch h
    · exact h
  -- `delete` and `load`.
  case h_15 | h_19 =>
    obtain rfl := Option.some.inj hs
    split_ifs
    · exact ⟨_, rfl, .quiet rfl rfl (fun _ ↦ id) fun _ ↦ id⟩
    · exact ⟨_, rfl, .quiet rfl rfl (fun _ ↦ id) fun _ ↦ id⟩
  case h_16 =>
    split_ifs at hs
    obtain rfl := Option.some.inj hs
    exact ⟨_, rfl, .quiet rfl rfl (fun _ ↦ id) fun _ ↦ id⟩
  case h_17 =>
    obtain rfl := Option.some.inj hs
    split_ifs
    · exact ⟨_, rfl, .quiet rfl rfl (fun _ ↦ id) fun _ ↦ id⟩
    · exact ⟨_, rfl, .quiet rfl rfl (fun _ ↦ id) fun _ ↦ id⟩
  case h_18 =>
    obtain rfl := Option.some.inj hs
    exact ⟨_, rfl, .removed rfl rfl rfl⟩
  case h_20 =>
    obtain rfl := Option.some.inj hs
    split
    · next htext => exact loaded_effect htext
    · exact ⟨_, rfl, .quiet rfl rfl (fun _ ↦ id) fun _ ↦ id⟩
  -- What fails, and what goes away.
  case h_34 | h_36 => exact nomatch hs
  all_goals
    obtain rfl := Option.some.inj hs
    exact ⟨_, rfl, .quiet rfl rfl (fun _ h ↦ nomatch h) fun _ h ↦ nomatch h⟩

/-- What a call has put in place it has put in place at some moment. -/
def PutInPlace (codec : Codec) (file : Option String) (i : ℕ) (job : Job) (w : World) : Prop :=
  ∃ w₁ w₂ m, (World.step codec).Runs Machine.anyEvent (.init file) w₁ ∧
    World.step codec w₁ (.move i m) = some w₂ ∧
    (World.step codec).Runs Machine.anyEvent w₂ w ∧
    w₂.file = some job.text ∧ (job.kind = .ifAbsent → w₁.file = none)

theorem PutInPlace.step {job : Job} (h : PutInPlace codec file i job w) {e : Event}
    (hs : World.step codec w e = some w') : PutInPlace codec file i job w' := by
  obtain ⟨w₁, w₂, m, hrun₁, hs₁, hrun₂, hfile⟩ := h
  exact ⟨w₁, w₂, m, hrun₁, hs₁, hrun₂.tail ⟨e, trivial, hs⟩, hfile⟩

theorem guarded (hrun : (World.step codec).Runs Machine.anyEvent (.init file) w) :
    Guarded file w :=
  hrun.preserves (fun _ _ _ h _ hs ↦ h.step hs) (.init file)

/-- A new call has put nothing in place; what it has to write is its own. -/
theorem start_effect (method : Method) (key : Option String) (noise : ℕ) :
    ∃ phase', (w.start codec method key noise).calls =
        Function.update w.calls w.next (some ⟨key, phase'⟩) ∧
      (w.start codec method key noise).file = w.file ∧
      (w.start codec method key noise).changes = w.changes ∧ phase'.written = none ∧
      ∀ job, phase'.pending = some job → (∀ since, job.kind ≠ .rewrite since) ∧
        job.text = storedSession codec key job.session noise := by
  cases method with
  | save session | saveIfAbsent session =>
    refine ⟨_, rfl, rfl, rfl, rfl, ?_⟩
    intro job hjob
    obtain rfl := Option.some.inj hjob
    exact ⟨fun _ h ↦ (nomatch h), rfl⟩
  | delete | load => exact ⟨_, rfl, rfl, rfl, rfl, fun _ h ↦ nomatch h⟩

theorem putInPlace (hrun : (World.step codec).Runs Machine.anyEvent (.init file) w) :
    ∀ i c job, w.calls i = some c → c.phase.written = some job →
      PutInPlace codec file i job w := by
  induction hrun with
  | refl => exact fun _ _ _ h ↦ nomatch h
  | tail hrun hstep ih =>
    obtain ⟨e, -, hs⟩ := hstep
    intro i c job hc hjob
    cases e with
    | call method key noise =>
      obtain rfl := Option.some.inj hs
      obtain ⟨phase', hcalls, -, -, hnone, -⟩ := start_effect method key noise
      rw [hcalls] at hc
      rcases call_of_update hc with ⟨-, rfl⟩ | ⟨-, hc⟩
      · exact nomatch hnone.symm.trans hjob
      · exact (ih i c job hc hjob).step hs
    | move j m =>
      obtain ⟨c₀, hc₀, hadvance⟩ := Option.bind_eq_some_iff.mp hs
      have hfits := (guarded hrun).calls j c₀ hc₀
      obtain ⟨phase', hcalls, heffect⟩ := advance_effect hfits hadvance
      rw [hcalls] at hc
      rcases call_of_update hc with ⟨rfl, rfl⟩ | ⟨-, hc⟩
      · cases heffect with
        | quiet hfile hchanges hpending hwritten =>
          exact (ih i c₀ job hc₀ (hwritten job hjob)).step hs
        | read => exact nomatch hjob
        | replaced _ hpending hphase hfile hchanges =>
          obtain rfl := Option.some.inj hjob
          refine ⟨_, _, m, hrun, hs, .refl, hfile, ?_⟩
          intro hkind
          rcases hphase with ⟨-, hne⟩ | habsent
          · exact absurd hkind hne
          · rw [habsent] at hfits
            exact hfits.2.2.2
        | linked hphase hkind hold hfile hchanges =>
          obtain rfl := Option.some.inj hjob
          exact ⟨_, _, m, hrun, hs, .refl, hfile, fun _ ↦ hold⟩
        | removed => exact nomatch hjob
      · exact (ih i c job hc hjob).step hs

/-- A file that is there is changed by `save`, by the rewrite of `load` or by `delete`. -/
theorem changed_by (h : Guarded file w) {e : Event} (hs : World.step codec w e = some w')
    (hsome : w.file.isSome) (hne : w'.file ≠ w.file) :
    ∃ i m c, e = .move i m ∧ w.calls i = some c ∧
      (c.phase = .deleteFound ∨ ∃ job, c.phase = .locked job ∧ job.kind ≠ .ifAbsent) := by
  cases e with
  | call method key noise =>
    obtain rfl := Option.some.inj hs
    obtain ⟨-, -, hfile, -⟩ := @start_effect codec w method key noise
    exact absurd hfile hne
  | move i m =>
    obtain ⟨c, hc, hs⟩ := Option.bind_eq_some_iff.mp hs
    have hfits := h.calls i c hc
    obtain ⟨phase', -, heffect⟩ := advance_effect hfits hs
    refine ⟨i, m, c, rfl, hc, ?_⟩
    cases heffect with
    | quiet hfile | read _ hfile => exact absurd hfile hne
    | @replaced job _ _ hphase =>
      rcases hphase with hlocked | habsent
      · exact .inr ⟨job, hlocked⟩
      · rw [habsent] at hfits
        rw [hfits.2.2.2] at hsome
        exact nomatch hsome
    | linked _ _ hold =>
      rw [hold] at hsome
      exact nomatch hsome
    | removed hphase => exact .inl hphase

/-- The temporary file of a call that is over is one that could not be removed, or that of a
process that went away. -/
theorem left_behind (h : Guarded file w) (htemp : w.temps i ≠ none) :
    ∃ c, w.calls i = some c ∧
      ∀ outcome, c.phase = .ended outcome → outcome = .littered ∨ outcome = .crashed := by
  cases hc : w.calls i with
  | none => exact absurd (h.owned i hc) htemp
  | some c =>
    refine ⟨c, rfl, ?_⟩
    intro outcome hover
    have hfits := h.calls i c hc
    rw [hover] at hfits
    cases outcome with
    | saved job before => exact absurd hfits.1 htemp
    | removed | loaded | raised => exact absurd hfits htemp
    | littered => exact .inl rfl
    | crashed => exact .inr rfl

end Effects

/-- A `save_if_absent` that succeeds has put its text in place of no file, and none changes a
file that is there; readers see the whole text of a writer; and a writer that raises leaves
no temporary file, unless it could not be removed. -/
theorem never_clobbers {codec : Codec} {file : Option String} {w : World}
    (hrun : (World.step codec).Runs Machine.anyEvent (.init file) w) :
    (∀ i key job before, w.calls i = some ⟨key, .ended (.saved job before)⟩ →
      PutInPlace codec file i job w) ∧
    (∀ e w', World.step codec w e = some w' → w.file.isSome → w'.file ≠ w.file →
      ∃ i m c, e = .move i m ∧ w.calls i = some c ∧
        (c.phase = .deleteFound ∨ ∃ job, c.phase = .locked job ∧ job.kind ≠ .ifAbsent)) ∧
    (∀ text, w.file = some text → file = some text ∨ text ∈ w.texts) ∧
    ∀ i, w.temps i ≠ none → ∃ c, w.calls i = some c ∧
      ∀ outcome, c.phase = .ended outcome → outcome = .littered ∨ outcome = .crashed := by
  have h := guarded hrun
  refine ⟨?_, ?_, h.whole, ?_⟩
  · intro i key job before hc
    exact putInPlace hrun i _ job hc rfl
  · intro e w' hs hsome hne
    exact changed_by h hs hsome hne
  · intro i htemp
    exact left_behind h htemp

/-- A cipher for trying the store out. -/
def Codec.trial : Codec where
  encrypt secret _ plaintext := secret ++ plaintext
  decryptV2 secret token := some (String.ofList (token.toList.drop secret.length))
  decryptV1 secret token := some (String.ofList (token.toList.drop secret.length))
  isSession text := !isBlank text

/-- Two calls of `save_if_absent` where hard links are not supported; the second finds the
file of the first. -/
theorem never_clobbers_of_fallback : ∃ w,
    (World.step .trial).Runs Machine.anyEvent (.init none) w ∧ w.file = some "a" ∧
      w.calls 1 = some ⟨none, .ended .raised⟩ ∧ w.temps 1 = none ∧
      PutInPlace .trial none 0 ⟨.ifAbsent, "a", "a"⟩ w := by
  have hexec : ((Machine.guarded (World.step .trial) fun _ _ ↦ True).exec (.init none)
      [.call (.saveIfAbsent "a") none 0, .call (.saveIfAbsent "b") none 0, .move 0 .create,
        .move 1 .create, .move 0 .flush, .move 1 .flush, .move 0 .acquire, .move 0 .noLink,
        .move 0 .lookup, .move 0 .replace, .move 0 .sync, .move 1 .acquire, .move 1 .noLink,
        .move 1 .lookup, .move 1 .unlink]).any
      (fun w ↦ w.file = some "a" ∧ w.calls 1 = some ⟨none, .ended .raised⟩ ∧
        w.temps 1 = none ∧
        w.calls 0 = some ⟨none, .ended (.saved ⟨.ifAbsent, "a", "a"⟩ none)⟩) = true := by
    decide +kernel
  obtain ⟨w, hrun, hfile, hraised, htemp, hsaved⟩ := Machine.exists_run_of_exec hexec
  exact ⟨w, hrun, hfile, hraised, htemp, (never_clobbers hrun).1 0 none _ none hsaved⟩

/-- The disk is full while the temporary file is written, and then the file cannot be removed
either: `save` raises, and the file is there. -/
theorem litter_left : ¬∀ w, (World.step .trial).Runs Machine.anyEvent (.init none) w →
    ∀ i key outcome, w.calls i = some ⟨key, .ended outcome⟩ → outcome ≠ .crashed →
      w.temps i = none := by
  intro h
  have hexec : ((Machine.guarded (World.step .trial) fun _ _ ↦ True).exec (.init none)
      [.call (.save "a") none 0, .move 0 .create, .move 0 .fail, .move 0 .fail]).any
      (fun w ↦ w.calls 0 = some ⟨none, .ended .littered⟩ ∧ w.temps 0 = some "") = true := by
    decide +kernel
  obtain ⟨w, hrun, hcall, htemp⟩ := Machine.exists_run_of_exec hexec
  exact nomatch htemp.symm.trans (h w hrun 0 none .littered hcall (by decide))

end TgMessenger.SessionStore
