import TgMessenger.Client.History

/-!
# Pages are current

A page of `history` is never older than a write that had returned, or an event that had been
published, when the call started.
-/

namespace TgMessenger.Client

open Cache

variable {cfg : Setup} {iterMessages : IterMessages}

/-- Every message of a page is of the dialog that was asked for. -/
theorem dialogId_of_mem_fetchHistory {key : PageKey} {versions : List ℕ} {m : Message}
    (h : m ∈ fetchHistory iterMessages key versions) : m.dialogId = key.peer := by
  obtain ⟨raw, -, rfl⟩ := List.mem_map.mp h
  rfl

/-- The handlers drop the pages of the peer. -/
theorem covers_invalidation (u : Update) : ∃ covers,
    (u.invalidation : Cache.Event PageKey (Reading (List Message))).covers? = some covers ∧
      ∀ key : PageKey, key.peer = u.peer → covers key := by
  rw [Update.invalidation]
  split
  · exact ⟨_, rfl, fun _ _ ↦ rfl⟩
  · exact ⟨_, rfl, fun _ hkey ↦ decide_eq_true hkey⟩

namespace World

variable {w w' : World} {pages pages' : Versioned PageKey ℤ (List Message)}

/-! ## The pages -/

/-- The changes of a write that arrives are there. -/
theorem arriveAt_spec (cfg : Setup) (iterMessages : IterMessages) (peers : List ℤ)
    (pages : Versioned PageKey ℤ (List Message)) :
    pages.Grows (arriveAt peers pages).2 ∧
      (pages.Current cfg (dialogs iterMessages) →
        (arriveAt peers pages).2.Current cfg (dialogs iterMessages)) ∧
      ∀ c ∈ (arriveAt peers pages).1, c.version ≤ (arriveAt peers pages).2.version c.peer := by
  induction peers generalizing pages with
  | nil => exact ⟨.refl _, fun h ↦ h, fun c hc ↦ absurd hc List.not_mem_nil⟩
  | cons peer peers ih =>
    obtain ⟨hgrows, hcurrent, hchanges⟩ := ih (pages.change peer)
    refine ⟨(Versioned.Grows.change pages peer).trans hgrows, fun h ↦ hcurrent (h.change peer), ?_⟩
    intro c hc
    obtain rfl | hc := List.mem_cons.mp hc
    · exact hgrows.version peer
    · exact hchanges c hc

/-- What a write has changed is known when its pages have been dropped. -/
theorem invalidateHistory_spec {changes : List Change}
    (hcurrent : pages.Current cfg (dialogs iterMessages))
    (hs : invalidateHistory cfg changes pages = some pages') :
    pages.Grows pages' ∧ pages'.Current cfg (dialogs iterMessages) ∧
      ∀ c ∈ changes, pages'.Knows c.peer c.version pages'.calls.now := by
  induction changes generalizing pages with
  | nil =>
    obtain rfl := Option.some.inj hs
    exact ⟨.refl _, hcurrent, fun c hc ↦ absurd hc List.not_mem_nil⟩
  | cons c changes ih =>
    obtain ⟨pages₁, hlearn, hs⟩ := Option.bind_eq_some_iff.mp hs
    have hcurrent₁ := hcurrent.learn rfl (fun key hkey ↦ decide_eq_true hkey) hlearn
    obtain ⟨hgrows, hcurrent', hknows⟩ := ih hcurrent₁ hs
    refine ⟨(Versioned.Grows.learn hlearn).trans hgrows, hcurrent', fun c' hc' ↦ ?_⟩
    obtain rfl | hc' := List.mem_cons.mp hc'
    · obtain ⟨a, ha, hsource, hversion, hlt⟩ := Versioned.knows_learn hlearn
      exact ⟨a, hgrows.told a ha, hsource, hversion, hlt.trans_le hgrows.now⟩
    · exact hknows c' hc'

/-- The pages of a write that has arrived can be dropped. -/
theorem isSome_invalidateHistory {changes : List Change}
    (h : ∀ c ∈ changes, c.version ≤ pages.version c.peer) :
    (invalidateHistory cfg changes pages).isSome := by
  induction changes generalizing pages with
  | nil => rfl
  | cons c changes ih =>
    obtain ⟨pages₁, hlearn⟩ := Option.isSome_iff_exists.mp (Versioned.isSome_learn cfg
      (e := .invalidateIf fun k ↦ decide (k.peer = c.peer)) rfl (h c List.mem_cons_self))
    rw [invalidateHistory, hlearn]
    exact ih fun c' hc' ↦
      (h c' (List.mem_cons_of_mem _ hc')).trans ((Versioned.Grows.learn hlearn).version _)

/-! ## The client -/

/-- What holds in every state. -/
structure Sound (cfg : Setup) (iterMessages : IterMessages) (w : World) : Prop where
  current : w.pages.Current cfg (dialogs iterMessages)
  arrived : ∀ t write changes, w.writes t = .arrived write changes →
    ∀ c ∈ changes, c.version ≤ w.pages.version c.peer
  updates : ∀ u ∈ w.updates, u.version ≤ w.pages.version u.peer
  published : ∀ e ∈ w.published, w.pages.Knows e.update.peer e.update.version e.time
  completed : ∀ d ∈ w.completed, ∀ c ∈ d.changes, w.pages.Knows c.peer c.version d.time
  /-- What was known when a call without the cache started is there for it to see. -/
  fresh : ∀ t key since version, w.fresh t = .fetching key since version →
    since ≤ w.pages.calls.now ∧ version ≤ w.pages.version key.peer ∧
      ∀ a ∈ w.pages.told, a.source = key.peer → a.time < since → a.version ≤ version
  freshPages : ∀ p ∈ w.freshPages, p.since ≤ w.pages.calls.now ∧
    w.pages.Recent (dialogs iterMessages) p.key p.since p.reading

namespace Sound

theorem init : Sound cfg iterMessages {} where
  current := .init
  arrived := by
    rintro t write changes ⟨⟩
  updates _ h := absurd h List.not_mem_nil
  published _ h := absurd h List.not_mem_nil
  completed _ h := absurd h List.not_mem_nil
  fresh := by
    rintro t key since version ⟨⟩
  freshPages _ h := absurd h List.not_mem_nil

/-- The pages go on and nothing else happens. -/
theorem grows (h : Sound cfg iterMessages w) (hgrows : w.pages.Grows pages)
    (hcurrent : pages.Current cfg (dialogs iterMessages)) :
    Sound cfg iterMessages { w with pages } where
  current := hcurrent
  arrived t write changes ht c hc := (h.arrived t write changes ht c hc).trans (hgrows.version _)
  updates u hu := (h.updates u hu).trans (hgrows.version _)
  published e he := hgrows.knows (h.published e he)
  completed d hd c hc := hgrows.knows (h.completed d hd c hc)
  fresh t key since version ht := by
    obtain ⟨hsince, hversion, htold⟩ := h.fresh t key since version ht
    refine ⟨hsince.trans hgrows.now, hversion.trans (hgrows.version _), fun a ha hsource hlt ↦ ?_⟩
    obtain ha | hle := hgrows.later a ha
    · exact htold a ha hsource hlt
    · exact absurd (hlt.trans_le hsince) hle.not_gt
  freshPages p hp := by
    obtain ⟨hsince, hrecent⟩ := h.freshPages p hp
    exact ⟨hsince.trans hgrows.now, hgrows.recent hsince hrecent⟩

/-- An event of the cache that neither ends a fetch nor stores a value. -/
theorem cacheEvent {e : Cache.Event PageKey (Reading (List Message))}
    (h : Sound cfg iterMessages w) (hfetched : ∀ t value, e ≠ .fetched t value)
    (hset : ∀ key value, e ≠ .set key value)
    (hs : w.withPages (w.pages.cacheEvent cfg e) = some w') : Sound cfg iterMessages w' := by
  obtain ⟨pages, hevent, rfl⟩ := Option.map_eq_some_iff.mp hs
  have hcurrent := h.current.cacheEvent (fun t value he ↦ absurd he (hfetched t value)) hset hevent
  exact h.grows (.cacheEvent hevent) hcurrent

/-- A write changes its status, without having arrived. -/
theorem setWrite (h : Sound cfg iterMessages w) (t : ℕ) (status : WriteStatus)
    (hstatus : ∀ write changes, status ≠ .arrived write changes) :
    Sound cfg iterMessages { w with writes := Function.update w.writes t status } := by
  refine ⟨h.current, fun u write changes hu ↦ ?_, h.updates, h.published, h.completed, h.fresh,
    h.freshPages⟩
  dsimp only at hu
  rw [Function.update_apply] at hu
  split_ifs at hu
  · exact absurd hu (hstatus write changes)
  · exact h.arrived u write changes hu

/-- A write arrives. -/
theorem arrive (h : Sound cfg iterMessages w) (t : ℕ) (write : Write) :
    Sound cfg iterMessages { w with
      pages := (arriveAt write.invalidates w.pages).2
      writes := Function.update w.writes t
        (.arrived write (arriveAt write.invalidates w.pages).1) } := by
  obtain ⟨hgrows, hcurrent, hchanges⟩ := arriveAt_spec cfg iterMessages write.invalidates w.pages
  have hnext := h.grows hgrows (hcurrent h.current)
  refine { hnext with arrived := fun u write' changes hu ↦ ?_ }
  dsimp only at hu
  rw [Function.update_apply] at hu
  split_ifs at hu
  · obtain ⟨rfl, rfl⟩ := WriteStatus.arrived.inj hu
    exact hchanges
  · exact hnext.arrived u write' changes hu

/-- A write returns, and its pages are dropped. -/
theorem complete (h : Sound cfg iterMessages w) (t : ℕ) (write : Write) {changes : List Change}
    (hs : invalidateHistory cfg changes w.pages = some pages) :
    Sound cfg iterMessages { w with
      pages
      writes := Function.update w.writes t .ended
      completed := ⟨write, changes, pages.calls.now⟩ :: w.completed } := by
  obtain ⟨hgrows, hcurrent, hknows⟩ := invalidateHistory_spec h.current hs
  have hnext := (h.grows hgrows hcurrent).setWrite t .ended (by rintro _ _ ⟨⟩)
  refine { hnext with completed := fun d hd ↦ ?_ }
  obtain rfl | hd := List.mem_cons.mp hd
  · exact hknows
  · exact hnext.completed d hd

/-- A call without the cache starts. -/
theorem startFresh (h : Sound cfg iterMessages w) (t : ℕ) (key : PageKey) :
    Sound cfg iterMessages { w with
      fresh := Function.update w.fresh t
        (.fetching key w.pages.calls.now (w.pages.version key.peer)) } := by
  refine { h with fresh := fun u key' since version hu ↦ ?_ }
  dsimp only at hu
  rw [Function.update_apply] at hu
  split_ifs at hu
  · obtain ⟨rfl, rfl, rfl⟩ := FreshStatus.fetching.inj hu
    refine ⟨le_refl _, le_refl _, fun a ha hsource hlt ↦ ?_⟩
    obtain ⟨hversion, -⟩ := h.current.told a ha
    rw [← hsource]
    exact hversion.trans (h.current.log a.time hlt a.source).1
  · exact h.fresh u key' since version hu

/-- A call without the cache ends. -/
theorem endFresh (h : Sound cfg iterMessages w) (t : ℕ) :
    Sound cfg iterMessages { w with fresh := Function.update w.fresh t .ended } := by
  refine { h with fresh := fun u key since version hu ↦ ?_ }
  dsimp only at hu
  rw [Function.update_apply] at hu
  split_ifs at hu
  exact h.fresh u key since version hu

/-- It brings a page of what it has seen. -/
theorem showFresh (h : Sound cfg iterMessages w) {t : ℕ} {key : PageKey} {since version : ℕ}
    (ht : w.fresh t = .fetching key since version) {versions : List ℕ}
    (hversions : ∀ n ∈ versions, version ≤ n ∧ n ≤ w.pages.version key.peer) :
    Sound cfg iterMessages { w with
      fresh := Function.update w.fresh t .ended
      freshPages := ⟨key, since, fetchHistory iterMessages key versions, versions⟩ ::
        w.freshPages } := by
  obtain ⟨hsince, -, htold⟩ := h.fresh t key since version ht
  refine { h.endFresh t with freshPages := fun p hp ↦ ?_ }
  obtain rfl | hp := List.mem_cons.mp hp
  · refine ⟨hsince, rfl, fun n hn ↦ ⟨(hversions n hn).2, fun a ha hsource hlt ↦ ?_⟩⟩
    exact (htold a ha hsource hlt).trans (hversions n hn).1
  · exact h.freshPages p hp

/-- The handler of an update runs. -/
theorem onUpdate {u : Update} (h : Sound cfg iterMessages w)
    (hs : w.onUpdate cfg u = some w') : Sound cfg iterMessages w' := by
  obtain ⟨pages, hlearn, rfl⟩ := Option.map_eq_some_iff.mp hs
  obtain ⟨covers, hcovers?, hcovers⟩ := covers_invalidation u
  have hnext := h.grows (.learn hlearn) (h.current.learn hcovers? hcovers hlearn)
  refine { hnext with published := fun e he ↦ ?_ }
  obtain he | he := List.mem_append.mp he
  · obtain ⟨b, -, rfl⟩ := List.mem_map.mp he
    exact Versioned.knows_learn hlearn
  · exact hnext.published e he

/-- Every event keeps what holds. -/
theorem step {e : Event} (h : Sound cfg iterMessages w)
    (hs : World.step cfg iterMessages w e = some w') : Sound cfg iterMessages w' := by
  cases e with
  | history t key => exact h.cacheEvent (by rintro _ _ ⟨⟩) (by rintro _ _ ⟨⟩) hs
  | resume t => exact h.cacheEvent (by rintro _ _ ⟨⟩) (by rintro _ _ ⟨⟩) hs
  | failed t => exact h.cacheEvent (by rintro _ _ ⟨⟩) (by rintro _ _ ⟨⟩) hs
  | cancel t => exact h.cacheEvent (by rintro _ _ ⟨⟩) (by rintro _ _ ⟨⟩) hs
  | abandon t => exact h.cacheEvent (by rintro _ _ ⟨⟩) (by rintro _ _ ⟨⟩) hs
  | fetched t versions =>
    obtain ⟨pages, hfetched, rfl⟩ := Option.map_eq_some_iff.mp hs
    exact h.grows (.fetched hfetched) (h.current.fetched hfetched)
  | historyFresh t key =>
    dsimp only [World.step] at hs
    split at hs
    · obtain rfl := Option.some.inj hs
      exact h.startFresh t key
    · cases hs
  | fetchedFresh t versions =>
    dsimp only [World.step] at hs
    split at hs
    next key since version ht =>
      obtain ⟨hversions, hs⟩ := Option.ite_none_right_eq_some.mp hs
      obtain rfl := Option.some.inj hs
      exact h.showFresh ht hversions
    next => cases hs
  | failedFresh t =>
    dsimp only [World.step] at hs
    split at hs
    · obtain rfl := Option.some.inj hs
      exact h.endFresh t
    · cases hs
  | ask t write =>
    dsimp only [World.step] at hs
    split at hs
    · obtain rfl := Option.some.inj hs
      exact h.setWrite t _ (by rintro _ _ ⟨⟩)
    · cases hs
  | arrive t =>
    dsimp only [World.step] at hs
    split at hs
    next write ht =>
      obtain rfl := Option.some.inj hs
      exact h.arrive t write
    next => cases hs
  | complete t =>
    dsimp only [World.step] at hs
    split at hs
    next write changes ht =>
      obtain ⟨pages, hpages, rfl⟩ := Option.map_eq_some_iff.mp hs
      exact h.complete t write hpages
    next => cases hs
  | raise t =>
    dsimp only [World.step] at hs
    split at hs
    · cases hs
    · cases hs
    · obtain rfl := Option.some.inj hs
      exact h.setWrite t _ (by rintro _ _ ⟨⟩)
  | change peer =>
    obtain rfl := Option.some.inj hs
    exact h.grows (.change _ peer) (h.current.change peer)
  | send u =>
    obtain ⟨hversion, hs⟩ := Option.ite_none_right_eq_some.mp hs
    obtain rfl := Option.some.inj hs
    refine { h with updates := fun u' hu' ↦ ?_ }
    obtain hu' | hu' := List.mem_append.mp hu'
    · exact h.updates u' hu'
    · rw [List.mem_singleton.mp hu']
      exact hversion
  | handle i =>
    obtain ⟨u, -, hs⟩ := Option.bind_eq_some_iff.mp hs
    have hnext : Sound cfg iterMessages { w with updates := w.updates.eraseIdx i } :=
      { h with updates := fun u' hu' ↦ h.updates u' (List.mem_of_mem_eraseIdx hu') }
    exact hnext.onUpdate hs

end Sound

theorem Reachable.sound (h : w.Reachable cfg iterMessages) : Sound cfg iterMessages w :=
  Machine.Runs.preserves (fun _ _ _ hw _ hs ↦ hw.step hs) h .init

/-- What a page shows that was asked for before the event `since`. -/
structure Shows (iterMessages : IterMessages) (w : World) (key : PageKey) (since : ℕ)
    (reading : Reading (List Message)) : Prop where
  page : reading.value = fetchHistory iterMessages key reading.versions
  dialog : ∀ m ∈ reading.value, m.dialogId = key.peer
  past : ∀ n ∈ reading.versions, n ≤ w.pages.version key.peer
  /-- The writes that had returned. -/
  completed : ∀ d ∈ w.completed, d.time ≤ since → ∀ c ∈ d.changes, c.peer = key.peer →
    ∀ n ∈ reading.versions, c.version ≤ n
  /-- The events that had been published. -/
  published : ∀ e ∈ w.published, e.time ≤ since → e.update.peer = key.peer →
    ∀ n ∈ reading.versions, e.update.version ≤ n

theorem Sound.shows {key : PageKey} {since : ℕ} {reading : Reading (List Message)}
    (h : Sound cfg iterMessages w)
    (hrecent : w.pages.Recent (dialogs iterMessages) key since reading) :
    w.Shows iterMessages key since reading where
  page := hrecent.1
  dialog m hm := dialogId_of_mem_fetchHistory (hrecent.1 ▸ hm)
  past n hn := (hrecent.2 n hn).1
  completed d hd htime c hc hpeer n hn := by
    have hknows := h.completed d hd c hc
    rw [hpeer] at hknows
    exact hrecent.le hknows htime hn
  published e he htime hpeer n hn := by
    have hknows := h.published e he
    rw [hpeer] at hknows
    exact hrecent.le hknows htime hn

/-- Whatever the calls, the writes, the updates and Telegram do, in any order: a page, cached or
not, is what was to be seen of the dialog at some moments, none of them before a write that had
returned when the call started or before an event that had been published by then.  A write that
has arrived can always return, and an update can always be handled. -/
theorem pages_shown (h : w.Reachable cfg iterMessages) :
    (∀ r ∈ w.pages.calls.returns, w.Shows iterMessages r.key r.since r.value.value) ∧
      (∀ p ∈ w.freshPages, w.Shows iterMessages p.key p.since p.reading) ∧
      (∀ t write changes, w.writes t = .arrived write changes →
        (step cfg iterMessages w (.complete t)).isSome) ∧
      ∀ i < w.updates.length, (step cfg iterMessages w (.handle i)).isSome := by
  have hsound := h.sound
  refine ⟨fun r hr ↦ hsound.shows (hsound.current.returned hr),
    fun p hp ↦ hsound.shows (hsound.freshPages p hp).2, fun t write changes ht ↦ ?_, fun i hi ↦ ?_⟩
  · dsimp only [step]
    rw [ht]
    dsimp only
    rw [Option.isSome_map]
    exact isSome_invalidateHistory (hsound.arrived t write changes ht)
  · obtain ⟨covers, hcovers?, -⟩ := covers_invalidation w.updates[i]
    dsimp only [step]
    rw [List.getElem?_eq_getElem hi, Option.bind_some, World.onUpdate, Option.isSome_map]
    exact Versioned.isSome_learn cfg hcovers? (hsound.updates _ (List.getElem_mem hi))

/-- A dialog whose pages show the version that was seen. -/
def numbered : IterMessages := fun _ versions ↦ versions.map fun n ↦ { id := some n, date := "" }

/-- A page is fetched while a message is sent; the next call does not get that page, although it
does not ask for a fresh one. -/
theorem pages_shown_race : ∃ w : World, w.Reachable ⟨30, 64, fun _ ↦ 0⟩ numbered ∧
    ∃ r ∈ w.pages.calls.returns, ∃ d ∈ w.completed, d.write = .sendText 5 ∧ d.time ≤ r.since ∧
      ∀ n ∈ r.value.value.versions, 1 ≤ n := by
  obtain ⟨w, hexec, hreturns, hcompleted⟩ : ∃ w : World,
      Machine.exec (step ⟨30, 64, fun _ ↦ 0⟩ numbered) {}
        [.history 1 ⟨5, 50, 0⟩, .ask 0 (.sendText 5), .arrive 0, .complete 0, .fetched 1 [0],
          .history 2 ⟨5, 50, 0⟩, .fetched 2 [1]] = some w ∧
      ⟨⟨5, 50, 0⟩, 3, ⟨⟨fetchHistory numbered ⟨5, 50, 0⟩ [1], [1]⟩, some 3⟩⟩ ∈
        w.pages.calls.returns ∧
      ⟨.sendText 5, [⟨5, 1⟩], 2⟩ ∈ w.completed :=
    ⟨_, rfl, List.mem_cons_self, List.mem_cons_self⟩
  have hrun : w.Reachable ⟨30, 64, fun _ ↦ 0⟩ numbered :=
    Machine.runs_of_exec (fun _ _ _ ↦ trivial) hexec
  have hshows := (pages_shown hrun).1 _ hreturns
  have hsince : 2 ≤ 3 := by decide
  exact ⟨w, hrun, _, hreturns, _, hcompleted, rfl, hsince,
    hshows.completed _ hcompleted hsince ⟨5, 1⟩ List.mem_cons_self rfl⟩

end World

end TgMessenger.Client
