import TgMessenger.Auth.NoClobber

/-!
# The rewrite of `load`

`load` reads without the lock and saves what it has read.  In a run where no load puts its
rewrite in place after a change it has not seen, the profile is always as the latest `save`,
`save_if_absent` or `delete` left it, and a load changes how its session is written only.
-/

namespace TgMessenger.SessionStore

/-! ## What a file says -/

/-- The text is the session, or it decrypts to the session. -/
def Says (codec : Codec) (text session : String) : Prop :=
  strip text = session ∨ ∃ plaintext secret noise,
    strip plaintext = session ∧ text = encryptSession codec plaintext secret noise

theorem says_stored (codec : Codec) (key : Option String) (session : String) (noise : ℕ) :
    Says codec (storedSession codec key session noise) (strip session) := by
  cases key with
  | none => exact .inl rfl
  | some secret => exact .inr ⟨session, secret, noise, rfl, rfl⟩

theorem isEncrypted_encryptSession (codec : Codec) (plaintext secret : String) (noise : ℕ) :
    isEncrypted (strip (encryptSession codec plaintext secret noise)) = true := by
  have hstart := @startsWith_strip v2Prefix (codec.encrypt secret noise plaintext)
    (by decide) (by decide) (by decide)
  exact Bool.or_eq_true_iff.mpr (.inr hstart)

/-- What `load` saves again is the text of a file that is not encrypted. -/
theorem readSession_rewrite {codec : Codec} {key : Option String} {text session : String}
    (h : readSession codec key text = some (some (session, true))) :
    key.isSome ∧ strip text = session ∧ isEncrypted session = false := by
  cases key with
  | none =>
    dsimp only [readSession] at h
    split_ifs at h
    · exact nomatch h
    · exact nomatch h
  | some secret =>
    dsimp only [readSession] at h
    split at h
    · exact nomatch h
    rw [if_neg (fun hand ↦ nomatch hand.2)] at h
    obtain ⟨plaintext, hplaintext, h⟩ := Option.bind_eq_some_iff.mp h
    split_ifs at h
    obtain ⟨rfl, hplain⟩ := Prod.mk.inj (Option.some.inj (Option.some.inj h))
    have hplain : isEncrypted (strip text) = false := by simpa using hplain
    rw [decryptSession, if_neg (Bool.eq_false_iff.mp hplain)] at hplaintext
    obtain rfl := Option.some.inj hplaintext
    exact ⟨rfl, rfl, hplain⟩

/-- A text that is not encrypted says one session. -/
theorem Says.of_plain {codec : Codec} {text session : String} (h : Says codec text session)
    (hplain : isEncrypted (strip text) = false) : strip text = session := by
  rcases h with hstrip | ⟨plaintext, secret, noise, -, rfl⟩
  · exact hstrip
  · exact nomatch hplain.symm.trans (isEncrypted_encryptSession codec plaintext secret noise)

/-! ## The condition -/

/-- The change is a save of this session. -/
def Change.saves (session : String) : Change → Bool
  | .saved other => strip other = session
  | .deleted => false

/-- Nothing has been changed since a load read, or what it read has been saved again. -/
def World.upToDate (w : World) (job : Job) : Bool :=
  match job.kind with
  | .rewrite since => w.changes.length = since || w.changes.head?.any (·.saves job.session)
  | _ => true

/-- No load puts its rewrite in place after a change it has not seen. -/
def Undisturbed (w : World) : Event → Prop
  | .move i .replace =>
    (w.calls i).all (fun c ↦ match c.phase with
      | .locked job | .absent job => w.upToDate job
      | _ => true) = true
  | _ => True

instance (w : World) (e : Event) : Decidable (Undisturbed w e) :=
  match e with
  | .move _ m =>
    match m with
    | .replace => inferInstanceAs (Decidable (_ = true))
    | .create | .write _ | .flush | .acquire | .link | .noLink | .lookup | .unlink | .sync
    | .read _ | .fail | .crash => inferInstanceAs (Decidable True)
  | .call .. => inferInstanceAs (Decidable True)

theorem Undisturbed.upToDate {w : World} {i : ℕ} {c : Call} {job : Job}
    (h : Undisturbed w (.move i .replace)) (hc : w.calls i = some c)
    (hphase : c.phase = .locked job ∨ c.phase = .absent job) : w.upToDate job = true := by
  rw [Undisturbed, hc, Option.all_some] at h
  rcases hphase with hlocked | habsent
  · rw [hlocked] at h
    exact h
  · rw [habsent] at h
    exact h

/-! ## The session of the profile -/

/-- The session that the latest change has left. -/
def World.current (file : Option String) (w : World) : Option String :=
  match w.changes with
  | [] => file.map strip
  | .saved session :: _ => some (strip session)
  | .deleted :: _ => none

/-- The file is there exactly if there is a session, and says that session. -/
def Shows (codec : Codec) (file : Option String) : Option String → Prop
  | none => file = none
  | some session => ∃ text, file = some text ∧ Says codec text session

theorem shows_stored (codec : Codec) (key : Option String) (session : String) (noise : ℕ) :
    Shows codec (some (storedSession codec key session noise)) (some (strip session)) :=
  ⟨_, rfl, says_stored codec key session noise⟩

theorem Shows.of_plain {codec : Codec} {text : String} {current : Option String}
    (h : Shows codec (some text) current) (hplain : isEncrypted (strip text) = false) :
    current = some (strip text) := by
  cases current with
  | none => exact nomatch h
  | some session =>
    obtain ⟨text', htext, hsaid⟩ := h
    obtain rfl := Option.some.inj htext
    rw [hsaid.of_plain hplain]

/-- The file shows the latest change, and what a load will write is what the file says, unless
it has changed since. -/
structure Sound (codec : Codec) (file : Option String) (w : World) : Prop where
  shows : Shows codec w.file (w.current file)
  stored : ∀ i c job, w.calls i = some c → c.phase.pending = some job →
    ∃ noise, job.text = storedSession codec c.key job.session noise
  rewrites : ∀ i c job since, w.calls i = some c → c.phase.pending = some job →
    job.kind = .rewrite since → since ≤ w.changes.length ∧ c.key.isSome ∧
      isEncrypted job.session = false ∧ strip job.session = job.session ∧
      (since = w.changes.length → w.current file = some job.session)

namespace Sound

variable {codec : Codec} {file : Option String} {w w' : World} {i : ℕ} {c : Call}

theorem init (codec : Codec) (file : Option String) : Sound codec file (.init file) where
  shows := by
    cases file with
    | none => exact rfl
    | some text => exact ⟨text, rfl, .inl rfl⟩
  stored _ _ _ h := nomatch h
  rewrites _ _ _ _ h := nomatch h

/-- No change is made, and the file shows the latest one still. -/
theorem keep (h : Sound codec file w) (hshows : Shows codec w'.file (w.current file))
    (hchanges : w'.changes = w.changes) (hcalls : w'.calls = Function.update w.calls i (some c))
    (hstored : ∀ job, c.phase.pending = some job →
      ∃ noise, job.text = storedSession codec c.key job.session noise)
    (hrewrites : ∀ job since, c.phase.pending = some job → job.kind = .rewrite since →
      since ≤ w.changes.length ∧ c.key.isSome ∧ isEncrypted job.session = false ∧
        strip job.session = job.session ∧
        (since = w.changes.length → w.current file = some job.session)) :
    Sound codec file w' := by
  have hcurrent : w'.current file = w.current file := by
    rw [World.current, hchanges]
    rfl
  refine ⟨?_, ?_, ?_⟩
  · rw [hcurrent]
    exact hshows
  · intro j c' job hc' hjob
    rw [hcalls] at hc'
    rcases call_of_update hc' with ⟨-, rfl⟩ | ⟨-, hc'⟩
    · exact hstored job hjob
    · exact h.stored j c' job hc' hjob
  · intro j c' job since hc' hjob hkind
    rw [hcalls] at hc'
    rw [hchanges, hcurrent]
    rcases call_of_update hc' with ⟨-, rfl⟩ | ⟨-, hc'⟩
    · exact hrewrites job since hjob hkind
    · exact h.rewrites j c' job since hc' hjob hkind

/-- A change is made, by a call that has nothing more to put in place. -/
theorem change (h : Sound codec file w) {change : Change}
    (hchanges : w'.changes = change :: w.changes)
    (hcalls : w'.calls = Function.update w.calls i (some c)) (hnone : c.phase.pending = none)
    (hshows : Shows codec w'.file (w'.current file)) : Sound codec file w' := by
  refine ⟨hshows, ?_, ?_⟩
  · intro j c' job hc' hjob
    rw [hcalls] at hc'
    rcases call_of_update hc' with ⟨-, rfl⟩ | ⟨-, hc'⟩
    · exact nomatch hnone.symm.trans hjob
    · exact h.stored j c' job hc' hjob
  · intro j c' job since hc' hjob hkind
    rw [hcalls] at hc'
    rcases call_of_update hc' with ⟨-, rfl⟩ | ⟨-, hc'⟩
    · exact nomatch hnone.symm.trans hjob
    · obtain ⟨hle, hkey, hplain, hstrip, -⟩ := h.rewrites j c' job since hc' hjob hkind
      have hlength : w'.changes.length = w.changes.length + 1 := congrArg List.length hchanges
      refine ⟨by omega, hkey, hplain, hstrip, ?_⟩
      intro hsince
      omega

/-- A load that is up to date writes the session of the profile. -/
theorem current_of_upToDate (h : Sound codec file w) {job : Job} {since : ℕ}
    (hc : w.calls i = some c) (hjob : c.phase.pending = some job)
    (hkind : job.kind = .rewrite since) (hdate : w.upToDate job = true) :
    w.current file = some job.session := by
  obtain ⟨-, -, -, -, hsince⟩ := h.rewrites i c job since hc hjob hkind
  rw [World.upToDate, hkind] at hdate
  rcases Bool.or_eq_true_iff.mp hdate with hsame | hsaved
  · exact hsince (of_decide_eq_true hsame).symm
  · obtain ⟨change, hhead, hsaves⟩ := (Option.any_eq_true ..).mp hsaved
    obtain ⟨rest, hchanges⟩ := List.head?_eq_some_iff.mp hhead
    cases change with
    | saved session =>
      rw [World.current, hchanges]
      exact congrArg some (of_decide_eq_true hsaves)
    | deleted => exact nomatch hsaves

/-- What a call has to write shows its session. -/
theorem shows_job (h : Sound codec file w) {job : Job} (hc : w.calls i = some c)
    (hjob : c.phase.pending = some job) :
    Shows codec (some job.text) (some (strip job.session)) := by
  obtain ⟨noise, htext⟩ := h.stored i c job hc hjob
  rw [htext]
  exact shows_stored codec c.key job.session noise

theorem replaced (h : Sound codec file w) {job : Job} (hc : w.calls i = some c)
    (hjob : c.phase.pending = some job) (hdate : w.upToDate job = true) {before : Option String}
    (hcalls : w'.calls = Function.update w.calls i (some ⟨c.key, .published job before⟩))
    (hfile : w'.file = some job.text) (hchanges : w'.changes = (w.publish job job.text).changes) :
    Sound codec file w' := by
  have hshows := h.shows_job hc hjob
  rw [← hfile] at hshows
  rw [World.publish] at hchanges
  cases hkind : job.kind with
  | rewrite since =>
    rw [hkind] at hchanges
    obtain ⟨-, -, -, hstrip, -⟩ := h.rewrites i c job since hc hjob hkind
    rw [hstrip, ← h.current_of_upToDate hc hjob hkind hdate] at hshows
    exact h.keep hshows hchanges hcalls (fun _ h ↦ by cases h) fun _ _ h ↦ by cases h
  | save | ifAbsent =>
    rw [hkind] at hchanges
    refine h.change hchanges hcalls rfl ?_
    rw [World.current, hchanges]
    exact hshows

theorem step (h : Sound codec file w) (hguarded : Guarded file w) {e : Event}
    (hok : Undisturbed w e) (hs : World.step codec w e = some w') : Sound codec file w' := by
  cases e with
  | call method key noise =>
    obtain rfl := Option.some.inj hs
    obtain ⟨phase', hcalls, hfile, hchanges, -, hown⟩ := @start_effect codec w method key noise
    refine h.keep ?_ hchanges hcalls ?_ ?_
    · rw [hfile]
      exact h.shows
    · intro job hjob
      exact ⟨noise, (hown job hjob).2⟩
    · intro job since hjob hkind
      exact absurd hkind ((hown job hjob).1 since)
  | move i m =>
    obtain ⟨c, hc, hs⟩ := Option.bind_eq_some_iff.mp hs
    obtain ⟨phase', hcalls, heffect⟩ := advance_effect (hguarded.calls i c hc) hs
    cases heffect with
    | quiet hfile hchanges hpending _ =>
      refine h.keep ?_ hchanges hcalls ?_ ?_
      · rw [hfile]
        exact h.shows
      · intro job hjob
        exact h.stored i c job hc (hpending job hjob)
      · intro job since hjob hkind
        exact h.rewrites i c job since hc (hpending job hjob) hkind
    | @read session text noise hphase hfile hchanges htext hread =>
      obtain ⟨hkey, rfl, hplain⟩ := readSession_rewrite hread
      refine h.keep ?_ hchanges hcalls ?_ ?_
      · rw [hfile]
        exact h.shows
      · intro job hjob
        obtain rfl := Option.some.inj hjob
        exact ⟨noise, rfl⟩
      · intro job since hjob hkind
        obtain rfl := Option.some.inj hjob
        obtain rfl := Kind.rewrite.inj hkind
        have hshows := h.shows
        rw [htext] at hshows
        exact ⟨le_rfl, hkey, hplain, strip_strip text, fun _ ↦ hshows.of_plain hplain⟩
    | @replaced job hmove hpending hphase hfile hchanges =>
      subst hmove
      have hdate := hok.upToDate hc (hphase.imp_left And.left)
      exact h.replaced hc hpending hdate hcalls hfile hchanges
    | @linked job hphase hkind hold hfile hchanges =>
      have hpending : c.phase.pending = some job := congrArg Phase.pending hphase
      refine h.change hchanges hcalls rfl ?_
      rw [World.current, hchanges, hfile]
      exact h.shows_job hc hpending
    | removed hphase hfile hchanges =>
      refine h.change hchanges hcalls rfl ?_
      rw [World.current, hchanges]
      exact hfile

end Sound

theorem sound {codec : Codec} {file : Option String} {w : World}
    (hrun : (World.step codec).Runs Undisturbed (.init file) w) : Sound codec file w := by
  have hboth := hrun.preserves (fun w w' e (h : Guarded file w ∧ Sound codec file w) hok hs ↦
    ⟨h.1.step hs, h.2.step h.1 hok hs⟩) ⟨.init file, .init codec file⟩
  exact hboth.2

/-- The phases a `load` goes through; a writer that fails goes through `failing` as well. -/
def Phase.ofLoad : Phase → Prop
  | .begun job | .writing job | .ready job | .locked job | .published job _ =>
    ∃ since, job.kind = .rewrite since
  | .loading | .reading | .failing => True
  | _ => False

/-- In a run whose steps meet the condition the file is as the latest change has left it, and
the next system call of a load leaves the file, or encrypts the session that it says. -/
theorem load_keeps_session {codec : Codec} {file : Option String} {w : World}
    (hrun : (World.step codec).Runs Undisturbed (.init file) w) :
    Shows codec w.file (w.current file) ∧
      ∀ i c m w', w.calls i = some c → c.phase.ofLoad → Undisturbed w (.move i m) →
        World.step codec w (.move i m) = some w' → w'.file = w.file ∨
          ∃ text session secret noise, w.file = some text ∧ Says codec text session ∧
            isEncrypted session = false ∧ c.key = some secret ∧
            w'.file = some (encryptSession codec session secret noise) := by
  have h := sound hrun
  have hguarded := guarded (hrun.mono fun _ _ _ ↦ trivial)
  refine ⟨h.shows, ?_⟩
  intro i c m w' hc hload hok hs
  obtain ⟨c', hc', hs⟩ := Option.bind_eq_some_iff.mp hs
  obtain rfl := Option.some.inj (hc.symm.trans hc')
  obtain ⟨phase', -, heffect⟩ := advance_effect (hguarded.calls i c hc) hs
  cases heffect with
  | quiet hfile | read _ hfile => exact .inl hfile
  | @replaced job hmove hpending hphase hfile =>
    subst hmove
    obtain ⟨since, hkind⟩ : ∃ since, job.kind = .rewrite since := by
      rcases hphase with ⟨hlocked, -⟩ | habsent
      · rw [hlocked] at hload
        exact hload
      · rw [habsent] at hload
        exact hload.elim
    have hdate := hok.upToDate hc (hphase.imp_left And.left)
    have hcurrent := h.current_of_upToDate hc hpending hkind hdate
    obtain ⟨-, hkey, hplain, -, -⟩ := h.rewrites i c job since hc hpending hkind
    obtain ⟨secret, hkey⟩ := Option.isSome_iff_exists.mp hkey
    obtain ⟨noise, htext⟩ := h.stored i c job hc hpending
    have hshows := h.shows
    rw [hcurrent] at hshows
    obtain ⟨text, hold, hsaid⟩ := hshows
    rw [hkey] at htext
    exact .inr ⟨text, job.session, secret, noise, hold, hsaid, hplain, hkey,
      hfile.trans (congrArg some htext)⟩
  | @linked job hphase hkind =>
    rw [hphase] at hload
    obtain ⟨since, hrewrite⟩ := hload
    exact nomatch hkind.symm.trans hrewrite
  | removed hphase =>
    rw [hphase] at hload
    exact hload.elim

/-- A plaintext file is read with a key, and the load puts the encrypted session in place. -/
theorem load_keeps_session_of_rewrite : ∃ w w',
    (World.step .trial).Runs Undisturbed (.init (some " old")) w ∧
      World.step .trial w (.move 0 .replace) = some w' ∧ w'.file = some "enc:v2:kold" ∧
      Shows .trial w'.file (some "old") ∧ (w'.file = w.file ∨
        ∃ text session secret noise, w.file = some text ∧ Says .trial text session ∧
          isEncrypted session = false ∧ some "k" = some secret ∧
          w'.file = some (encryptSession .trial session secret noise)) := by
  have hexec : ((Machine.guarded (World.step .trial) Undisturbed).exec (.init (some " old"))
      [.call .load (some "k") 0, .move 0 .lookup, .move 0 (.read 0), .move 0 .create,
        .move 0 .flush, .move 0 .acquire]).any
      (fun w ↦ w.calls 0 = some ⟨some "k", .locked ⟨.rewrite 0, "old", "enc:v2:kold"⟩⟩ ∧
        Undisturbed w (.move 0 .replace) ∧
        (World.step .trial w (.move 0 .replace)).any (fun w' ↦ w'.file = some "enc:v2:kold" ∧
          w'.current (some " old") = some "old") = true) = true := by
    decide +kernel
  obtain ⟨w, hrun, hc, hok, hstep⟩ := Machine.exists_run_of_exec hexec
  obtain ⟨w', hs, hP⟩ := (Option.any_eq_true ..).mp hstep
  obtain ⟨hfile, hcurrent⟩ := of_decide_eq_true hP
  have hshows := (load_keeps_session (hrun.tail ⟨_, hok, hs⟩)).1
  rw [hcurrent] at hshows
  exact ⟨w, w', hrun, hs, hfile, hshows,
    (load_keeps_session hrun).2 0 _ .replace w' hc ⟨0, rfl⟩ hok hs⟩

/-- A load has read the session `old`.  Before it takes the lock, another process saves the
session `new`, or deletes the profile; then the load puts `old` in place. -/
theorem old_session_returns :
    (∃ w, (World.step .trial).Runs Machine.anyEvent (.init (some "old")) w ∧
      w.changes = [.saved "new"] ∧ w.file = some "new" ∧
      (World.step .trial w (.move 0 .replace)).any
        (·.file = some (encryptSession .trial "old" "k" 0)) = true) ∧
    ∃ w, (World.step .trial).Runs Machine.anyEvent (.init (some "old")) w ∧
      w.changes = [.deleted] ∧ w.file = none ∧
      (World.step .trial w (.move 0 .replace)).any
        (·.file = some (encryptSession .trial "old" "k" 0)) = true := by
  have hsave : ((Machine.guarded (World.step .trial) fun _ _ ↦ True).exec (.init (some "old"))
      [.call .load (some "k") 0, .move 0 .lookup, .move 0 (.read 0), .call (.save "new") none 0,
        .move 1 .create, .move 1 .flush, .move 1 .acquire, .move 1 .replace, .move 1 .sync,
        .move 0 .create, .move 0 .flush, .move 0 .acquire]).any
      (fun w ↦ w.changes = [.saved "new"] ∧ w.file = some "new" ∧
        (World.step .trial w (.move 0 .replace)).any
          (·.file = some (encryptSession .trial "old" "k" 0)) = true) = true := by
    decide +kernel
  have hdelete : ((Machine.guarded (World.step .trial) fun _ _ ↦ True).exec (.init (some "old"))
      [.call .load (some "k") 0, .move 0 .lookup, .move 0 (.read 0), .call .delete none 0,
        .move 1 .lookup, .move 1 .acquire, .move 1 .lookup, .move 1 .unlink, .move 0 .create,
        .move 0 .flush, .move 0 .acquire]).any
      (fun w ↦ w.changes = [.deleted] ∧ w.file = none ∧
        (World.step .trial w (.move 0 .replace)).any
          (·.file = some (encryptSession .trial "old" "k" 0)) = true) = true := by
    decide +kernel
  obtain ⟨w₁, hrun₁, hw₁⟩ := Machine.exists_run_of_exec hsave
  obtain ⟨w₂, hrun₂, hw₂⟩ := Machine.exists_run_of_exec hdelete
  exact ⟨⟨w₁, hrun₁, hw₁⟩, ⟨w₂, hrun₂, hw₂⟩⟩

end TgMessenger.SessionStore
