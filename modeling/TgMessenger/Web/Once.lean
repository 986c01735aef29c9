import TgMessenger.Web.Recorded
import Mathlib.Data.List.Perm.Basic
import Mathlib.Tactic.SplitIfs

/-!
# One bubble for each message

A message has one bubble in the pane when all its copies have arrived, in every run in which the
copies meet in the right order: the echo of a message comes when it is recorded, and while the page
has the message; any other message, while the page does not have it; and a response with the history
has what the page was to get, but for what is still under way to it.
-/

namespace TgMessenger.Web.Bubbles

/-! ## The copies of the messages -/

def Stream.frameKeys (s : Stream) : List Key := s.frames.map fun f ↦ (s.dialogId, f.id)

/-- The events that the stream has not looked at. -/
def Stream.events (s : Stream) : List Message := s.incoming.events ++ s.outgoing.events

/-- The messages that the requests have sent. -/
def sentKeys (posts : List Post) : List Key := posts.filterMap fun post ↦ post.msg.map key

namespace Page

def frameKeys (page : Page) : List Key := page.stream.elim [] Stream.frameKeys

def postKeys (page : Page) : List Key := sentKeys page.posts

/-- The messages that have a bubble, or a frame or a response of a `POST` that makes one. -/
def copies (page : Page) : List Key :=
  page.messages.map Bubble.key ++ (page.frameKeys ++ page.postKeys)

def events (page : Page) : List Message := page.stream.elim [] Stream.events

def queued (page : Page) : List Key := page.events.map key

/-- A history of the open dialog is still to come. -/
def Awaits (page : Page) : Prop := ∃ h ∈ page.histories, page.dialogId = some h.dialogId

/-- A message that is due is there or under way. -/
def Covered (page : Page) : Prop := ∀ k ∈ page.due, k ∈ page.copies ∨ k ∈ page.queued

/-- There is no second copy of a message that makes a bubble, and none that is due is lost. -/
structure Sound (page : Page) : Prop where
  single : page.copies.Nodup
  covered : page.Awaits ∨ page.Covered

/-- All the copies of a message have arrived. -/
structure Settled (page : Page) (k : Key) : Prop where
  histories : ¬ page.Awaits
  frames : k ∉ page.frameKeys
  posts : k ∉ page.postKeys
  events : k ∉ page.queued

/-- A message that is due has one bubble when its copies have arrived. -/
def Once (page : Page) : Prop :=
  ∀ k ∈ page.due, page.Settled k → (page.messages.map Bubble.key).count k = 1

/-- A message that is due, with another number of bubbles when nothing is under way. -/
theorem not_once {page : Page} {k : Key} (hhistories : page.histories.isEmpty = true)
    (hrest : page.frameKeys ++ page.postKeys ++ page.queued = []) (hdue : k ∈ page.due)
    (hcount : (page.messages.map Bubble.key).count k ≠ 1) : ¬ page.Once := by
  intro h
  obtain ⟨hcopies, hqueued⟩ := List.append_eq_nil_iff.mp hrest
  obtain ⟨hframes, hposts⟩ := List.append_eq_nil_iff.mp hcopies
  refine hcount (h k hdue ⟨?_, ?_, ?_, ?_⟩)
  · rintro ⟨h, hmem, -⟩
    rw [List.isEmpty_iff.mp hhistories] at hmem
    exact absurd hmem List.not_mem_nil
  · rw [hframes]
    exact List.not_mem_nil
  · rw [hposts]
    exact List.not_mem_nil
  · rw [hqueued]
    exact List.not_mem_nil

theorem Sound.once {page : Page} (h : page.Sound) : page.Once := by
  intro k hdue hsettled
  have hbubbles : (page.messages.map Bubble.key).Nodup := h.single.of_append_left
  refine List.count_eq_one_of_mem hbubbles ?_
  rcases h.covered.resolve_left hsettled.histories k hdue with hcopy | hevent
  · refine (List.mem_append.mp hcopy).resolve_right fun hrest ↦ ?_
    exact (List.mem_append.mp hrest).elim hsettled.frames hsettled.posts
  · exact absurd hevent hsettled.events

/-! ## What is right to do -/

/-- A history of the open dialog is still to come after this one. -/
def AwaitsOther (i : ℕ) (page : Page) : Prop :=
  ∃ h ∈ page.histories.eraseIdx i, page.dialogId = some h.dialogId

/-- The event that a full queue drops when a message is published. -/
def lost (out : Bool) (page : Page) : Option Message :=
  page.stream.bind fun s ↦ if s.live then (s.channel out).dropped else none

/-- The stream of the open dialog is live, and its queue drops no message of this dialog. -/
def Hears (m : Message) (page : Page) : Prop :=
  page.Awaits ∨
    (page.dialogId = some m.dialogId → ∃ s ∈ page.stream, s.live = true) ∧
      ∀ x ∈ page.lost m.out, page.dialogId ≠ some x.dialogId

/-- The echo of what was recorded is looked at while the page has the message; any other message,
while the page does not have it. -/
def Suits (out : Bool) (page : Page) : Prop :=
  ∀ s ∈ page.stream, ∀ m ∈ (s.channel out).task, m.dialogId = s.dialogId →
    (out = true ∧ key m ∈ page.recorded.take defaultRememberCap →
      page.Awaits ∨ key m ∈ page.copies) ∧
    (¬(out = true ∧ key m ∈ page.recorded.take defaultRememberCap) → key m ∉ page.copies)

/-- The response has nothing that is under way, and what is due is in it or under way. -/
def Accepts (i : ℕ) (items : List Message) (page : Page) : Prop :=
  (∀ k ∈ items.map key, k ∉ page.frameKeys ++ page.postKeys) ∧
    (page.AwaitsOther i ∨ ∀ k ∈ page.due,
      (k ∈ items.map key ∨ k ∈ page.frameKeys ++ page.postKeys) ∨ k ∈ page.queued)

/-- A response that is swapped in is right for the page. -/
def Fits (i : ℕ) (page : Page) : Prop :=
  ∀ h ∈ page.histories[i]?, page.dialogId = some h.dialogId →
    ∀ items ∈ h.items, page.Accepts i items

/-- The last history of the open dialog that is still to come does not fail. -/
def Spares (i : ℕ) (page : Page) : Prop :=
  ∀ h ∈ page.histories[i]?, page.dialogId = some h.dialogId → page.AwaitsOther i

/-- The stream has nothing of the open dialog that has yet to arrive. -/
def Survives (page : Page) : Prop :=
  page.Awaits ∨ page.frameKeys = [] ∧ ∀ m ∈ page.events, page.dialogId ≠ some m.dialogId

instance (page : Page) : Decidable page.Awaits :=
  inferInstanceAs (Decidable (∃ h ∈ page.histories, _ = _))

instance (i : ℕ) (page : Page) : Decidable (page.AwaitsOther i) :=
  inferInstanceAs (Decidable (∃ h ∈ page.histories.eraseIdx i, _ = _))

instance (m : Message) (page : Page) : Decidable (page.Hears m) :=
  inferInstanceAs (Decidable (_ ∨ (_ → ∃ s ∈ page.stream, _ = _) ∧ ∀ x ∈ page.lost m.out, _))

instance (out : Bool) (page : Page) : Decidable (page.Suits out) :=
  inferInstanceAs (Decidable (∀ s ∈ page.stream, ∀ m ∈ (s.channel out).task, _ → _ ∧ _))

instance (i : ℕ) (items : List Message) (page : Page) : Decidable (page.Accepts i items) :=
  inferInstanceAs (Decidable ((∀ k ∈ items.map key, _) ∧ (_ ∨ ∀ k ∈ page.due, _)))

instance (i : ℕ) (page : Page) : Decidable (page.Fits i) :=
  inferInstanceAs (Decidable (∀ h ∈ page.histories[i]?, _ → ∀ items ∈ h.items, _))

instance (i : ℕ) (page : Page) : Decidable (page.Spares i) :=
  inferInstanceAs (Decidable (∀ h ∈ page.histories[i]?, _ → _))

instance (page : Page) : Decidable page.Survives :=
  inferInstanceAs (Decidable (_ ∨ _ = _ ∧ ∀ m ∈ page.events, _))

end Page

/-! ## The events of a stream -/

/-- A message is put behind what the queue keeps. -/
theorem Channel.events_put (m : Message) (c : Channel) :
    ∃ rest, c.events.Perm (c.dropped.toList ++ rest) ∧ (c.put m).events = rest ++ [m] := by
  obtain ⟨queue, task⟩ := c
  rw [events, events, dropped, put]
  split_ifs with hfull
  · cases queue with
    | nil => exact absurd hfull (Nat.not_le_of_lt (by decide : 0 < defaultMaxsize))
    | cons x queue =>
      exact ⟨task.toList ++ queue, List.perm_middle, (List.append_assoc ..).symm⟩
  · exact ⟨task.toList ++ queue, .refl _, (List.append_assoc ..).symm⟩

namespace Stream

variable {s : Stream} {out : Bool} {c : Channel}

theorem events_perm (s : Stream) (out : Bool) :
    s.events.Perm ((s.channel out).events ++ (s.channel !out).events) := by
  cases out with
  | false => exact .refl _
  | true => exact List.perm_append_comm

theorem events_setChannel (s : Stream) (out : Bool) (c : Channel) :
    (s.setChannel out c).events.Perm (c.events ++ (s.channel !out).events) := by
  cases out with
  | false => exact .refl _
  | true => exact List.perm_append_comm

@[simp] theorem dialogId_setChannel : (s.setChannel out c).dialogId = s.dialogId := by
  cases out <;> rfl

@[simp] theorem frames_setChannel : (s.setChannel out c).frames = s.frames := by
  cases out <;> rfl

@[simp] theorem frameKeys_setChannel : (s.setChannel out c).frameKeys = s.frameKeys := by
  cases out <;> rfl

@[simp] theorem skips_setChannel {sentIds : SentIds} {m : Message} :
    (s.setChannel out c).skips sentIds out m = s.skips sentIds out m := by
  cases out <;> rfl

/-- A message that is put into a channel takes the place of what a full queue drops. -/
theorem events_put (s : Stream) (out : Bool) (m : Message) :
    ∃ rest, s.events.Perm ((s.channel out).dropped.toList ++ rest) ∧
      (s.setChannel out ((s.channel out).put m)).events.Perm (m :: rest) := by
  obtain ⟨rest, hbefore, hafter⟩ := (s.channel out).events_put m
  refine ⟨rest ++ (s.channel !out).events, ?_, ?_⟩
  · refine (s.events_perm out).trans ?_
    rw [← List.append_assoc]
    exact hbefore.append_right _
  · refine (s.events_setChannel out _).trans ?_
    rw [hafter, List.append_assoc]
    exact List.perm_middle

/-- What a task has got is one of the events. -/
theorem events_clear {m : Message} (h : (s.channel out).task = some m) :
    s.events.Perm (m :: (s.setChannel out { s.channel out with task := none }).events) := by
  have hevents : (s.channel out).events = m :: (s.channel out).queue := by
    rw [Channel.events, h]
    rfl
  have hcleared := s.events_setChannel out { s.channel out with task := none }
  refine (s.events_perm out).trans ?_
  rw [hevents]
  exact hcleared.symm.cons m

theorem look_cases (sentIds : SentIds) (out : Bool) (m : Message) (s : Stream) :
    (m.dialogId ≠ s.dialogId ∧ s.look sentIds out m = s) ∨
    (m.dialogId = s.dialogId ∧ s.skips sentIds out m = true ∧ s.look sentIds out m = s) ∨
    (m.dialogId = s.dialogId ∧ s.skips sentIds out m = false ∧
      s.look sentIds out m = { s with frames := s.frames ++ [⟨m.id, m.text, out⟩] }) := by
  rw [look]
  split_ifs with hdialog hskips
  · exact .inl ⟨hdialog, rfl⟩
  · exact .inr (.inl ⟨not_not.mp hdialog, hskips, rfl⟩)
  · exact .inr (.inr ⟨not_not.mp hdialog, Bool.eq_false_of_not_eq_true hskips, rfl⟩)

theorem dialogId_look {sentIds : SentIds} {m : Message} :
    (s.look sentIds out m).dialogId = s.dialogId := by
  obtain ⟨-, hlook⟩ | ⟨-, -, hlook⟩ | ⟨-, -, hlook⟩ := look_cases sentIds out m s
  all_goals rw [hlook]

theorem events_look {sentIds : SentIds} {m : Message} :
    (s.look sentIds out m).events = s.events := by
  obtain ⟨-, hlook⟩ | ⟨-, -, hlook⟩ | ⟨-, -, hlook⟩ := look_cases sentIds out m s
  · rw [hlook]
  · rw [hlook]
  · rw [hlook]
    rfl

end Stream

/-! ## Requests -/

section Requests

variable {α : Type*} {l : List α} {i : ℕ} {x : α}

theorem perm_of_getElem? (h : l[i]? = some x) : l.Perm (x :: l.eraseIdx i) := by
  obtain ⟨hi, rfl⟩ := List.getElem?_eq_some_iff.mp h
  exact (List.getElem_cons_eraseIdx_perm hi).symm

theorem set_perm_of_getElem? (h : l[i]? = some x) (y : α) :
    (l.set i y).Perm (y :: l.eraseIdx i) := by
  obtain ⟨hi, -⟩ := List.getElem?_eq_some_iff.mp h
  exact List.set_perm_cons_eraseIdx hi y

end Requests

theorem sentKeys_cons (post : Post) (posts : List Post) :
    sentKeys (post :: posts) = (post.msg.map key).toList ++ sentKeys posts := by
  rw [sentKeys, List.filterMap_cons]
  cases post.msg <;> rfl

theorem sentKeys_perm {posts : List Post} {i : ℕ} {post : Post} (h : posts[i]? = some post) :
    (sentKeys posts).Perm ((post.msg.map key).toList ++ sentKeys (posts.eraseIdx i)) := by
  rw [← sentKeys_cons]
  exact (perm_of_getElem? h).filterMap _

theorem sentKeys_set {posts : List Post} {i : ℕ} {post : Post} (h : posts[i]? = some post)
    (post' : Post) : (sentKeys (posts.set i post')).Perm
      ((post'.msg.map key).toList ++ sentKeys (posts.eraseIdx i)) := by
  rw [← sentKeys_cons]
  exact (set_perm_of_getElem? h post').filterMap _

/-- The handler of a request that goes on sends nothing. -/
theorem sentKeys_modify (posts : List Post) (i : ℕ) :
    sentKeys (posts.modify i fun post ↦ { post with answered := true }) = sentKeys posts := by
  induction posts generalizing i with
  | nil => cases i <;> rfl
  | cons post posts ih =>
    cases i with
    | zero => rw [List.modify_zero_cons, sentKeys_cons, sentKeys_cons]
    | succ i => rw [List.modify_succ_cons, sentKeys_cons, sentKeys_cons, ih]

/-! ## What holds in every run -/

namespace Page

/-- What belongs to a dialog names it. -/
structure Formed (known : List Message) (page : Page) : Prop where
  stream : ∀ s ∈ page.stream, page.dialogId = some s.dialogId
  posts : ∀ post ∈ page.posts, ∀ m ∈ post.msg, m.dialogId = post.dialogId
  items : ∀ h ∈ page.histories, ∀ items ∈ h.items, (items.map key).Nodup ∧
    ∀ m ∈ items, m ∈ known ∧ m.dialogId = h.dialogId

/-- Where the copies and the events of a page come from. -/
structure Tracked (known published : List Message) (page : Page) : Prop where
  copies : ∀ k ∈ page.copies, k ∈ known.map key
  events : ∀ m ∈ page.events, m ∈ published
  nodup : page.queued.Nodup
  due : ∀ k ∈ page.due, page.dialogId = some k.1
  queued : ∀ m ∈ page.events, page.dialogId = some m.dialogId → key m ∈ page.due

/-- A copy has moved at most. -/
structure Keeps (page page' : Page) : Prop where
  dialogId : page'.dialogId = page.dialogId
  due : page'.due = page.due
  copies : page'.copies.Perm page.copies
  events : page'.events.Perm page.events
  awaits : page'.Awaits ↔ page.Awaits

variable {known published : List Message} {page page' : Page}

theorem Tracked.keep (h : page.Tracked known published) (hkeeps : Keeps page page') :
    page'.Tracked known published where
  copies := fun k hk ↦ h.copies k (hkeeps.copies.mem_iff.mp hk)
  events := fun m hm ↦ h.events m (hkeeps.events.mem_iff.mp hm)
  nodup := (hkeeps.events.map key).nodup_iff.mpr h.nodup
  due := by
    rw [hkeeps.due, hkeeps.dialogId]
    exact h.due
  queued := by
    rw [hkeeps.due, hkeeps.dialogId]
    exact fun m hm ↦ h.queued m (hkeeps.events.mem_iff.mp hm)

theorem Covered.keep (h : page.Covered) (hkeeps : Keeps page page') : page'.Covered := by
  intro k hk
  rw [hkeeps.due] at hk
  exact (h k hk).imp hkeeps.copies.mem_iff.mpr (hkeeps.events.map key).mem_iff.mpr

theorem Sound.keep (h : page.Sound) (hkeeps : Keeps page page') : page'.Sound where
  single := hkeeps.copies.nodup_iff.mpr h.single
  covered := h.covered.imp hkeeps.awaits.mpr fun hcovered ↦ hcovered.keep hkeeps

/-- What is there of a stream, when there is one. -/
theorem frameKeys_eq {s : Stream} (h : page.stream = some s) : page.frameKeys = s.frameKeys := by
  rw [frameKeys, h]
  rfl

theorem events_eq {s : Stream} (h : page.stream = some s) : page.events = s.events := by
  rw [events, h]
  rfl

/-- Another state of the stream, with the same frames and events. -/
theorem keeps_stream {s : Stream} (hframes : s.frameKeys = page.frameKeys)
    (hevents : s.events.Perm page.events) : Keeps page { page with stream := some s } where
  dialogId := rfl
  due := rfl
  copies := by
    show (_ ++ (s.frameKeys ++ _)).Perm _
    rw [hframes]
    rfl
  events := hevents
  awaits := .rfl

/-! ### The stream -/

theorem Keeps.take (known : Bool) : Keeps page (page.take known) := by
  cases known <;> exact ⟨rfl, rfl, .refl _, .refl _, .rfl⟩

theorem Formed.take (h : page.Formed known) (has : Bool) : (page.take has).Formed known := by
  cases has
  · exact { h with }
  · exact h

theorem Keeps.connect {n : ℕ} (hs : page.connect n = some page') : Keeps page page' := by
  obtain ⟨hstream, dialogId, -, rfl⟩ := connect_eq hs
  apply keeps_stream
  · rw [frameKeys, hstream]
    rfl
  · rw [Page.events, hstream]
    rfl

theorem Formed.connect {n : ℕ} (h : page.Formed known) (hs : page.connect n = some page') :
    page'.Formed known := by
  obtain ⟨-, dialogId, hdialog, rfl⟩ := connect_eq hs
  refine { h with stream := ?_ }
  rintro s ⟨⟩
  exact hdialog

theorem Keeps.subscribe (hs : page.subscribe = some page') : Keeps page page' := by
  obtain ⟨s, hstream, rfl⟩ := subscribe_eq hs
  refine keeps_stream (frameKeys_eq hstream).symm ?_
  rw [events_eq hstream]
  rfl

theorem Formed.subscribe (h : page.Formed known) (hs : page.subscribe = some page') :
    page'.Formed known := by
  obtain ⟨s, hstream, rfl⟩ := subscribe_eq hs
  refine { h with stream := ?_ }
  rintro s' ⟨⟩
  exact h.stream s hstream

theorem Keeps.fetch {out : Bool} (hs : page.fetch out = some page') : Keeps page page' := by
  obtain ⟨s, m, queue, hstream, hchannel, rfl⟩ := fetch_eq hs
  apply keeps_stream
  · rw [Stream.frameKeys_setChannel, frameKeys_eq hstream]
  · rw [events_eq hstream]
    refine (s.events_setChannel out _).trans (.trans ?_ (s.events_perm out).symm)
    rw [hchannel]
    rfl

theorem Formed.fetch {out : Bool} (h : page.Formed known) (hs : page.fetch out = some page') :
    page'.Formed known := by
  obtain ⟨s, m, queue, hstream, -, rfl⟩ := fetch_eq hs
  refine { h with stream := ?_ }
  rintro s' ⟨⟩
  rw [Stream.dialogId_setChannel]
  exact h.stream s hstream

theorem Keeps.frame (hs : page.frame = some page') : Keeps page page' := by
  obtain ⟨s, f, frames, hstream, hframes, rfl⟩ := frame_eq hs
  refine ⟨rfl, rfl, ?_, ?_, .rfl⟩
  · rw [Page.copies, Page.copies, frameKeys_eq hstream, Stream.frameKeys, hframes, List.map_append,
      List.append_assoc]
    rfl
  · rw [events_eq hstream]
    rfl

theorem Formed.frame (h : page.Formed known) (hs : page.frame = some page') :
    page'.Formed known := by
  obtain ⟨s, f, frames, hstream, -, rfl⟩ := frame_eq hs
  refine { h with stream := ?_ }
  rintro s' ⟨⟩
  exact h.stream s hstream

theorem copies_openDialog (dialogId : ℤ) :
    (page.openDialog dialogId).copies.Sublist page.copies :=
  (List.sublist_append_right page.frameKeys page.postKeys).append_left _

/-- What was asked for is still to come. -/
theorem awaits_openDialog (dialogId : ℤ) : (page.openDialog dialogId).Awaits :=
  ⟨⟨dialogId, none⟩, List.mem_append_right _ List.mem_cons_self, rfl⟩

theorem Formed.openDialog (h : page.Formed known) (dialogId : ℤ) :
    (page.openDialog dialogId).Formed known where
  stream := by rintro s ⟨⟩
  posts := h.posts
  items := by
    intro request hmem
    rcases List.mem_append.mp hmem with hmem | hmem
    · exact h.items request hmem
    · rw [List.mem_singleton.mp hmem]
      rintro items ⟨⟩

theorem Tracked.openDialog (h : page.Tracked known published) (dialogId : ℤ) :
    (page.openDialog dialogId).Tracked known published where
  copies := fun k hk ↦ h.copies k ((copies_openDialog dialogId).subset hk)
  events := by rintro m ⟨⟩
  nodup := List.nodup_nil
  due := by rintro k ⟨⟩
  queued := by rintro m ⟨⟩

theorem Sound.openDialog (h : page.Sound) (dialogId : ℤ) : (page.openDialog dialogId).Sound where
  single := h.single.sublist (copies_openDialog dialogId)
  covered := .inl (awaits_openDialog dialogId)

theorem copies_drop : page.drop.copies.Sublist page.copies :=
  (List.sublist_append_right page.frameKeys page.postKeys).append_left _

theorem Formed.drop (h : page.Formed known) : page.drop.Formed known :=
  { h with stream := by rintro s ⟨⟩ }

theorem Tracked.drop (h : page.Tracked known published) : page.drop.Tracked known published where
  copies := fun k hk ↦ h.copies k (copies_drop.subset hk)
  events := by rintro m ⟨⟩
  nodup := List.nodup_nil
  due := h.due
  queued := by rintro m ⟨⟩

/-- The stream is lost without harm when nothing that is due depends on it. -/
theorem Sound.drop (h : page.Sound) (htracked : page.Tracked known published)
    (hsurvives : page.Survives) : page.drop.Sound := by
  refine ⟨h.single.sublist copies_drop, ?_⟩
  by_cases hawaits : page.Awaits
  · exact .inl hawaits
  · obtain ⟨hframes, hevents⟩ := hsurvives.resolve_left hawaits
    refine .inr fun k hk ↦ ?_
    rcases h.covered.resolve_left hawaits k hk with hcopy | hqueued
    · rw [copies, hframes] at hcopy
      exact .inl hcopy
    · obtain ⟨m, hm, rfl⟩ := List.mem_map.mp hqueued
      exact absurd (htracked.due _ hk) (hevents m hm)

/-! ### An event is published -/

theorem copies_hear (m : Message) : (page.hear m).copies = page.copies := by
  have hframes : (page.hear m).frameKeys = page.frameKeys := by
    rw [frameKeys, frameKeys, hear]
    cases page.stream with
    | none => rfl
    | some s =>
      show Stream.frameKeys (if s.live then _ else s) = s.frameKeys
      split_ifs
      · exact Stream.frameKeys_setChannel
      · rfl
  rw [copies, copies, hframes]
  rfl

theorem mem_due_hear {m : Message} {k : Key} : k ∈ (page.hear m).due ↔
    (page.dialogId = some m.dialogId ∧ k = key m) ∨ k ∈ page.due := by
  rw [hear]
  by_cases hopen : page.dialogId = some m.dialogId
  · simp [hopen]
  · simp [hopen]

/-- A live stream gets the event, in the place of one that a full queue drops. -/
theorem events_hear (m : Message) (page : Page) :
    ((∃ s ∈ page.stream, s.live = true) ∧ ∃ rest,
      page.events.Perm ((page.lost m.out).toList ++ rest) ∧
        (page.hear m).events.Perm (m :: rest)) ∨
    ((¬ ∃ s ∈ page.stream, s.live = true) ∧ page.lost m.out = none ∧
      (page.hear m).events = page.events) := by
  rw [events, events, lost, hear]
  cases hstream : page.stream with
  | none =>
    refine .inr ⟨?_, rfl, rfl⟩
    rintro ⟨s, ⟨⟩, -⟩
  | some s =>
    by_cases hlive : s.live = true
    · refine .inl ⟨⟨s, rfl, hlive⟩, ?_⟩
      have hput := s.events_put m.out m
      simpa [hlive] using hput
    · refine .inr ⟨?_, if_neg hlive, ?_⟩
      · rintro ⟨s', ⟨⟩, hlive'⟩
        exact hlive hlive'
      · show Stream.events (if s.live then _ else s) = s.events
        rw [if_neg hlive]

theorem Formed.hear (h : page.Formed known) (m : Message) : (page.hear m).Formed known := by
  refine { h with stream := ?_ }
  intro s' hs'
  obtain ⟨s, hstream, rfl⟩ := Option.map_eq_some_iff.mp hs'
  split_ifs
  · rw [Stream.dialogId_setChannel]
    exact h.stream s hstream
  · exact h.stream s hstream

/-- Nothing that is under way through the stream is named like a message that is published. -/
theorem Tracked.fresh {m : Message} (h : page.Tracked known published)
    (hkeys : (known.map key).Nodup) (hsub : ∀ x ∈ published, x ∈ known) (hm : m ∈ known)
    (hnew : m ∉ published) : key m ∉ page.queued := by
  intro hmem
  obtain ⟨x, hx, hkey⟩ := List.mem_map.mp hmem
  have hpublished := h.events x hx
  rw [List.inj_on_of_nodup_map hkeys (hsub x hpublished) hm hkey] at hpublished
  exact hnew hpublished

theorem Tracked.hear {m : Message} (h : page.Tracked known published)
    (hfresh : key m ∉ page.queued) :
    (page.hear m).Tracked known (published ++ [m]) := by
  have hdue : ∀ k ∈ (page.hear m).due, page.dialogId = some k.1 := by
    intro k hk
    rcases mem_due_hear.mp hk with ⟨hopen, rfl⟩ | hk
    · exact hopen
    · exact h.due k hk
  have hold : ∀ x ∈ page.events, page.dialogId = some x.dialogId → key x ∈ (page.hear m).due :=
    fun x hx hopen ↦ mem_due_hear.mpr (.inr (h.queued x hx hopen))
  have hcopies : ∀ k ∈ (page.hear m).copies, k ∈ known.map key := by
    rw [copies_hear]
    exact h.copies
  rcases events_hear m page with ⟨-, rest, hbefore, hafter⟩ | ⟨-, -, hevents⟩
  · have hrest : ∀ x ∈ rest, x ∈ page.events := fun x hx ↦
      hbefore.mem_iff.mpr (List.mem_append_right _ hx)
    have hsub : (rest.map key).Sublist (((page.lost m.out).toList ++ rest).map key) :=
      (List.sublist_append_right _ _).map key
    refine ⟨hcopies, ?_, ?_, hdue, ?_⟩
    · intro x hx
      rcases List.mem_cons.mp (hafter.mem_iff.mp hx) with rfl | hx
      · exact List.mem_append_right _ List.mem_cons_self
      · exact List.mem_append_left _ (h.events x (hrest x hx))
    · refine (hafter.map key).nodup_iff.mpr (List.nodup_cons.mpr ⟨fun hmem ↦ hfresh ?_, ?_⟩)
      · exact (hbefore.map key).mem_iff.mpr (hsub.subset hmem)
      · exact ((hbefore.map key).nodup_iff.mp h.nodup).sublist hsub
    · intro x hx hopen
      rcases List.mem_cons.mp (hafter.mem_iff.mp hx) with rfl | hx
      · exact mem_due_hear.mpr (.inl ⟨hopen, rfl⟩)
      · exact hold x (hrest x hx) hopen
  · refine ⟨hcopies, ?_, ?_, hdue, ?_⟩
    · rw [hevents]
      exact fun x hx ↦ List.mem_append_left _ (h.events x hx)
    · rw [Page.queued, hevents]
      exact h.nodup
    · rw [hevents]
      exact hold

/-- A message is published without harm when the page hears of it, or awaits a history. -/
theorem Sound.hear {m : Message} (h : page.Sound) (htracked : page.Tracked known published)
    (hhears : page.Hears m) : (page.hear m).Sound := by
  refine ⟨(copies_hear m).symm ▸ h.single, ?_⟩
  by_cases hawaits : page.Awaits
  · exact .inl hawaits
  · obtain ⟨hlive, hlost⟩ := hhears.resolve_left hawaits
    have hcovered : page.Covered := h.covered.resolve_left hawaits
    refine .inr fun k hk ↦ ?_
    rw [copies_hear, queued]
    rcases events_hear m page with ⟨-, rest, hbefore, hafter⟩ | ⟨hdead, -, hevents⟩
    · rcases mem_due_hear.mp hk with ⟨-, rfl⟩ | hk
      · exact .inr (List.mem_map_of_mem (hafter.mem_iff.mpr List.mem_cons_self))
      · refine (hcovered k hk).imp_right fun hqueued ↦ ?_
        obtain ⟨x, hx, rfl⟩ := List.mem_map.mp hqueued
        rcases List.mem_append.mp (hbefore.mem_iff.mp hx) with hx | hx
        · exact absurd (htracked.due _ hk) (hlost x (Option.mem_toList.mp hx))
        · exact List.mem_map_of_mem (hafter.mem_iff.mpr (List.mem_cons_of_mem _ hx))
    · rw [hevents]
      rcases mem_due_hear.mp hk with ⟨hopen, -⟩ | hk
      · exact absurd (hlive hopen) hdead
      · exact hcovered k hk

/-! ### The loop looks at an event -/

theorem Formed.check {sentIds : SentIds} {out : Bool} (h : page.Formed known)
    (hs : page.check sentIds out = some page') : page'.Formed known := by
  obtain ⟨s, m, hstream, -, rfl⟩ := check_eq hs
  refine { h with stream := ?_ }
  rintro s' ⟨⟩
  rw [Stream.dialogId_look, Stream.dialogId_setChannel]
  exact h.stream s hstream

/-- What the loop makes of an event. -/
theorem check_cases {sentIds : SentIds} {out : Bool} (h : page.Formed known)
    (hs : page.check sentIds out = some page') : ∃ s m,
      page.stream = some s ∧ (s.channel out).task = some m ∧
      page'.dialogId = page.dialogId ∧ page'.due = page.due ∧
      (page'.Awaits ↔ page.Awaits) ∧ page.events.Perm (m :: page'.events) ∧
      ((page.dialogId ≠ some m.dialogId ∧ m.dialogId ≠ s.dialogId ∧
          page'.copies = page.copies) ∨
        (page.dialogId = some m.dialogId ∧ m.dialogId = s.dialogId ∧
          s.skips sentIds out m = true ∧ page'.copies = page.copies) ∨
        (page.dialogId = some m.dialogId ∧ m.dialogId = s.dialogId ∧
          s.skips sentIds out m = false ∧ page'.copies.Perm (key m :: page.copies))) := by
  obtain ⟨s, m, hstream, htask, rfl⟩ := check_eq hs
  have hopen := h.stream s hstream
  refine ⟨s, m, hstream, htask, rfl, rfl, .rfl, ?_, ?_⟩
  · rw [events_eq hstream]
    refine (Stream.events_clear htask).trans ?_
    rw [← Stream.events_look]
    rfl
  · rw [copies, copies, frameKeys_eq hstream, frameKeys, hopen]
    obtain ⟨hdialog, hlook⟩ | ⟨hdialog, hskips, hlook⟩ | ⟨hdialog, hskips, hlook⟩ :=
      Stream.look_cases sentIds out m (s.setChannel out { s.channel out with task := none })
    all_goals rw [Stream.dialogId_setChannel] at hdialog
    · refine .inl ⟨fun hsome ↦ hdialog (Option.some.inj hsome).symm, hdialog, ?_⟩
      rw [hlook]
      show _ ++ (Stream.frameKeys _ ++ _) = _
      rw [Stream.frameKeys_setChannel]
      rfl
    · rw [Stream.skips_setChannel] at hskips
      refine .inr (.inl ⟨congrArg some hdialog.symm, hdialog, hskips, ?_⟩)
      rw [hlook]
      show _ ++ (Stream.frameKeys _ ++ _) = _
      rw [Stream.frameKeys_setChannel]
      rfl
    · rw [Stream.skips_setChannel] at hskips
      refine .inr (.inr ⟨congrArg some hdialog.symm, hdialog, hskips, ?_⟩)
      have hframes : Stream.frameKeys ((s.setChannel out { s.channel out with task := none }).look
          sentIds out m) = s.frameKeys ++ [key m] := by
        rw [hlook, Stream.frameKeys, Stream.frameKeys]
        simp [key, hdialog]
      show (_ ++ (Stream.frameKeys _ ++ _)).Perm _
      rw [hframes, List.append_assoc]
      exact (List.perm_middle.append_left _).trans List.perm_middle

theorem Tracked.check {sentIds : SentIds} {out : Bool} (h : page.Tracked known published)
    (hformed : page.Formed known) (hsub : ∀ m ∈ published, m ∈ known)
    (hs : page.check sentIds out = some page') : page'.Tracked known published := by
  obtain ⟨s, m, -, -, hdialogId, hdue, -, hevents, hcopies⟩ := check_cases hformed hs
  have hold : ∀ x ∈ page'.events, x ∈ page.events := fun x hx ↦
    hevents.mem_iff.mpr (List.mem_cons_of_mem _ hx)
  constructor
  case copies =>
    intro k hk
    rcases hcopies with ⟨-, -, hcopies⟩ | ⟨-, -, -, hcopies⟩ | ⟨-, -, -, hcopies⟩
    · exact h.copies k (hcopies ▸ hk)
    · exact h.copies k (hcopies ▸ hk)
    · rcases List.mem_cons.mp (hcopies.mem_iff.mp hk) with rfl | hk
      · have hevent : m ∈ page.events := hevents.mem_iff.mpr List.mem_cons_self
        exact List.mem_map_of_mem (hsub m (h.events m hevent))
      · exact h.copies k hk
  case events => exact fun x hx ↦ h.events x (hold x hx)
  case nodup => exact (List.nodup_cons.mp ((hevents.map key).nodup_iff.mp h.nodup)).2
  case due =>
    rw [hdue, hdialogId]
    exact h.due
  case queued =>
    rw [hdue, hdialogId]
    exact fun x hx ↦ h.queued x (hold x hx)

/-- An event is looked at without harm when the stream can tell an echo from news. -/
theorem Sound.check {sentIds : SentIds} {out : Bool} (h : page.Sound)
    (htracked : page.Tracked known published) (hformed : page.Formed known)
    (hfed : page.Fed sentIds) (hsuits : page.Suits out)
    (hs : page.check sentIds out = some page') : page'.Sound := by
  obtain ⟨s, m, hstream, htask, -, hdue, hawaits, hevents, hcopies⟩ := check_cases hformed hs
  have hsuits := hsuits s hstream m htask
  have hqueued : ∀ k ∈ page.queued, k = key m ∨ k ∈ page'.queued := fun k hk ↦
    List.mem_cons.mp ((hevents.map key).mem_iff.mp hk)
  obtain ⟨hclosed, hdialog, hcopies⟩ | ⟨hopen, hdialog, hskips, hcopies⟩ |
    ⟨hopen, hdialog, hskips, hcopies⟩ := hcopies
  · refine ⟨hcopies ▸ h.single, h.covered.imp hawaits.mpr fun hcovered k hk ↦ ?_⟩
    rw [hdue] at hk
    rw [hcopies]
    refine (hcovered k hk).imp_right fun hk' ↦ (hqueued k hk').resolve_left ?_
    rintro rfl
    exact hclosed (htracked.due _ hk)
  · have hthere := (hsuits hdialog).1 ((hfed.skips_iff hstream).mp hskips)
    refine ⟨hcopies ▸ h.single, ?_⟩
    by_cases hawaits' : page.Awaits
    · exact .inl (hawaits.mpr hawaits')
    · refine .inr fun k hk ↦ ?_
      rw [hdue] at hk
      rw [hcopies]
      rcases h.covered.resolve_left hawaits' k hk with hk | hk
      · exact .inl hk
      · rcases hqueued k hk with rfl | hk
        · exact .inl (hthere.resolve_left hawaits')
        · exact .inr hk
  · have hfresh := (hsuits hdialog).2 fun hrecorded ↦ Bool.eq_false_iff.mp hskips
      ((hfed.skips_iff hstream).mpr hrecorded)
    refine ⟨hcopies.nodup_iff.mpr (List.nodup_cons.mpr ⟨hfresh, h.single⟩), ?_⟩
    refine h.covered.imp hawaits.mpr fun hcovered k hk ↦ ?_
    rw [hdue] at hk
    rw [hcopies.mem_iff, List.mem_cons]
    rcases hcovered k hk with hk | hk
    · exact .inl (.inr hk)
    · exact (hqueued k hk).imp_left .inl

/-! ### The history -/

/-- A request for the open dialog, and the others. -/
theorem awaits_iff {h : History} {rest : List History} (hperm : page.histories.Perm (h :: rest)) :
    page.Awaits ↔
      page.dialogId = some h.dialogId ∨ ∃ h' ∈ rest, page.dialogId = some h'.dialogId := by
  rw [Awaits]
  constructor
  · rintro ⟨h', hmem, hdialog⟩
    rcases List.mem_cons.mp (hperm.mem_iff.mp hmem) with rfl | hmem
    · exact .inl hdialog
    · exact .inr ⟨h', hmem, hdialog⟩
  · rintro (hdialog | ⟨h', hmem, hdialog⟩)
    · exact ⟨h, hperm.mem_iff.mpr List.mem_cons_self, hdialog⟩
    · exact ⟨h', hperm.mem_iff.mpr (List.mem_cons_of_mem _ hmem), hdialog⟩

theorem Keeps.history {i : ℕ} {items : List Message} (hs : page.history i items = some page') :
    Keeps page page' := by
  obtain ⟨h, hget, -, rfl⟩ := history_eq hs
  refine ⟨rfl, rfl, .refl _, .refl _, ?_⟩
  rw [awaits_iff (perm_of_getElem? hget)]
  exact @awaits_iff { page with histories := page.histories.set i { h with items := some items } }
    { h with items := some items } _ (set_perm_of_getElem? hget _)

theorem Formed.history {i : ℕ} {items : List Message} (h : page.Formed known)
    (hknown : ∀ m ∈ items, m ∈ known) (hs : page.history i items = some page') :
    page'.Formed known := by
  obtain ⟨request, hget, ⟨hnodup, hdialog⟩, rfl⟩ := history_eq hs
  refine { h with items := ?_ }
  intro request' hmem
  rcases List.mem_or_eq_of_mem_set hmem with hmem | rfl
  · exact h.items request' hmem
  · rintro _ ⟨⟩
    exact ⟨hnodup, fun m hm ↦ ⟨hknown m hm, hdialog m hm⟩⟩

theorem Formed.eraseIdx (h : page.Formed known) (i : ℕ) :
    Formed known { page with histories := page.histories.eraseIdx i } :=
  { h with items := fun h' hmem ↦ h.items h' (List.mem_of_mem_eraseIdx hmem) }

theorem Formed.swap {i : ℕ} (h : page.Formed known) (hs : page.swap i = some page') :
    page'.Formed known := by
  obtain ⟨request, items, -, -, ⟨-, rfl⟩ | ⟨-, rfl⟩⟩ := swap_eq hs
  · exact { h.eraseIdx i with }
  · exact h.eraseIdx i

theorem Formed.dismiss {i : ℕ} (h : page.Formed known) (hs : page.dismiss i = some page') :
    page'.Formed known := by
  obtain ⟨request, -, rfl⟩ := dismiss_eq hs
  exact h.eraseIdx i

/-- The bubbles of a response. -/
theorem bubbleKeys_messageDiv (items : List Message) :
    (items.map messageDiv).map Bubble.key = items.map key := List.map_map ..

theorem Tracked.swap {i : ℕ} (h : page.Tracked known published) (hformed : page.Formed known)
    (hs : page.swap i = some page') : page'.Tracked known published := by
  obtain ⟨request, items, hget, hitems, ⟨hdialog, rfl⟩ | ⟨-, rfl⟩⟩ := swap_eq hs
  · obtain ⟨-, hknown⟩ := hformed.items request (List.mem_of_getElem? hget) items hitems
    refine { h with copies := ?_, due := ?_, queued := ?_ }
    · intro k hk
      rw [Page.copies, bubbleKeys_messageDiv] at hk
      rcases List.mem_append.mp hk with hk | hk
      · obtain ⟨m, hm, rfl⟩ := List.mem_map.mp hk
        exact List.mem_map_of_mem (hknown m hm).1
      · exact h.copies k (List.mem_append_right _ hk)
    · intro k hk
      rcases List.mem_append.mp hk with hk | hk
      · obtain ⟨m, hm, rfl⟩ := List.mem_map.mp hk
        rw [key, (hknown m hm).2]
        exact hdialog
      · exact h.due k hk
    · exact fun m hm hopen ↦ List.mem_append_right _ (h.queued m hm hopen)
  · exact { h with }

theorem Tracked.dismiss {i : ℕ} (h : page.Tracked known published)
    (hs : page.dismiss i = some page') : page'.Tracked known published := by
  obtain ⟨request, -, rfl⟩ := dismiss_eq hs
  exact { h with }

/-- A response is dropped without harm when another one is still to come, or none is needed. -/
theorem Sound.dismiss {i : ℕ} (h : page.Sound) (hspares : page.Spares i)
    (hs : page.dismiss i = some page') : page'.Sound := by
  obtain ⟨request, hget, rfl⟩ := dismiss_eq hs
  refine ⟨h.single, h.covered.imp_left fun hawaits ↦ ?_⟩
  rcases (awaits_iff (perm_of_getElem? hget)).mp hawaits with hopen | hother
  · exact hspares request hget hopen
  · exact hother

theorem Sound.swap {i : ℕ} (h : page.Sound) (hformed : page.Formed known) (hfits : page.Fits i)
    (hs : page.swap i = some page') : page'.Sound := by
  obtain ⟨request, items, hget, hitems, ⟨hdialog, rfl⟩ | ⟨hdialog, rfl⟩⟩ := swap_eq hs
  · obtain ⟨hnodup, -⟩ := hformed.items request (List.mem_of_getElem? hget) items hitems
    obtain ⟨hapart, hcovered⟩ := hfits request hget hdialog items hitems
    constructor
    case single =>
      rw [copies, bubbleKeys_messageDiv]
      exact hnodup.append h.single.of_append_right fun k hk ↦ hapart k hk
    case covered =>
      refine hcovered.imp_right fun hcovered k hk ↦ ?_
      rw [copies, bubbleKeys_messageDiv, List.mem_append]
      rcases List.mem_append.mp hk with hk | hk
      · exact .inl (.inl hk)
      · exact hcovered k hk
  · refine ⟨h.single, h.covered.imp_left fun hawaits ↦ ?_⟩
    exact ((awaits_iff (perm_of_getElem? hget)).mp hawaits).resolve_left hdialog

/-! ### The requests that send -/

theorem Keeps.post (dialogId : ℤ) : Keeps page (page.post dialogId) := by
  refine ⟨rfl, rfl, ?_, .refl _, .rfl⟩
  have hkeys : (page.post dialogId).postKeys = page.postKeys := by
    rw [postKeys, Page.post, sentKeys, List.filterMap_append]
    exact List.append_nil _
  rw [Page.copies, hkeys]
  rfl

theorem Formed.post (h : page.Formed known) (dialogId : ℤ) :
    (page.post dialogId).Formed known := by
  refine { h with posts := ?_ }
  intro post hmem
  rcases List.mem_append.mp hmem with hmem | hmem
  · exact h.posts post hmem
  · rw [List.mem_singleton.mp hmem]
    rintro m ⟨⟩

theorem Keeps.refused {i : ℕ} (hs : page.refused i = some page') : Keeps page page' := by
  obtain ⟨post, hget, hmsg, rfl⟩ := refused_eq hs
  refine ⟨rfl, rfl, ?_, .refl _, .rfl⟩
  have hkeys := sentKeys_perm hget
  rw [hmsg] at hkeys
  exact (hkeys.symm.append_left _).append_left _

theorem Formed.refused {i : ℕ} (h : page.Formed known) (hs : page.refused i = some page') :
    page'.Formed known := by
  obtain ⟨post, -, -, rfl⟩ := refused_eq hs
  exact { h with posts := fun post hmem ↦ h.posts post (List.mem_of_mem_eraseIdx hmem) }

theorem Keeps.record (i : ℕ) (k : Key) : Keeps page (page.record i k) := by
  refine ⟨rfl, rfl, ?_, .refl _, .rfl⟩
  have hkeys : (page.record i k).postKeys = page.postKeys := sentKeys_modify page.posts i
  rw [Page.copies, hkeys]
  rfl

theorem Formed.record (h : page.Formed known) (i : ℕ) (k : Key) :
    (page.record i k).Formed known := by
  refine { h with posts := ?_ }
  intro post hmem
  have hmodify : post ∈ page.posts.modify i fun post ↦ { post with answered := true } := hmem
  obtain ⟨j, hj, rfl⟩ := List.mem_iff_getElem.mp hmodify
  have hj' : j < page.posts.length := hj.trans_eq (List.length_modify ..)
  rw [List.getElem_modify]
  split_ifs
  · exact h.posts page.posts[j] (List.getElem_mem _)
  · exact h.posts page.posts[j] (List.getElem_mem _)

/-- A message that was sent has one copy more. -/
theorem copies_sent {i : ℕ} {m : Message} (hs : page.sent i m = some page') :
    page'.copies.Perm (key m :: page.copies) := by
  obtain ⟨post, hget, hmsg, -, rfl⟩ := sent_eq hs
  have hbefore := sentKeys_perm hget
  rw [hmsg] at hbefore
  have hafter : (sentKeys (page.posts.set i { post with msg := some m })).Perm
      (key m :: sentKeys page.posts) :=
    (sentKeys_set hget _).trans (hbefore.symm.cons (key m))
  refine ((hafter.append_left _).append_left _).trans ?_
  rw [copies]
  exact (List.perm_middle.append_left _).trans List.perm_middle

theorem Tracked.sent {i : ℕ} {m : Message} (h : page.Tracked known published)
    (hm : m ∈ known) (hs : page.sent i m = some page') : page'.Tracked known published := by
  have hcopies := copies_sent hs
  obtain ⟨post, -, -, -, rfl⟩ := sent_eq hs
  refine { h with copies := ?_ }
  intro k hk
  rcases List.mem_cons.mp (hcopies.mem_iff.mp hk) with rfl | hk
  · exact List.mem_map_of_mem hm
  · exact h.copies k hk

theorem Sound.sent {i : ℕ} {m : Message} (h : page.Sound) (hfresh : key m ∉ page.copies)
    (hs : page.sent i m = some page') : page'.Sound := by
  have hcopies := copies_sent hs
  have hsub : ∀ k ∈ page.copies, k ∈ page'.copies := fun k hk ↦
    hcopies.mem_iff.mpr (List.mem_cons_of_mem _ hk)
  obtain ⟨post, -, -, -, rfl⟩ := sent_eq hs
  constructor
  case single => exact hcopies.nodup_iff.mpr (List.nodup_cons.mpr ⟨hfresh, h.single⟩)
  case covered =>
    exact h.covered.imp_right fun hcovered k hk ↦ (hcovered k hk).imp_left (hsub k)

theorem Formed.sent {i : ℕ} {m : Message} (h : page.Formed known)
    (hs : page.sent i m = some page') : page'.Formed known := by
  obtain ⟨post, hget, -, hdialog, rfl⟩ := sent_eq hs
  refine { h with posts := ?_ }
  intro post' hmem
  rcases List.mem_or_eq_of_mem_set hmem with hmem | rfl
  · exact h.posts post' hmem
  · rintro _ ⟨⟩
    exact hdialog

/-- The copy of a response becomes a bubble. -/
theorem copies_answer {i : ℕ} {post : Post} {m : Message} (hget : page.posts[i]? = some post)
    (hmsg : post.msg = some m) :
    page.copies.Perm (key m ::
      (page.messages.map Bubble.key ++ (page.frameKeys ++ sentKeys (page.posts.eraseIdx i)))) := by
  have hkeys := sentKeys_perm hget
  rw [hmsg] at hkeys
  refine ((hkeys.append_left _).append_left _).trans ?_
  exact (List.perm_middle.append_left _).trans List.perm_middle

theorem copies_bubble (messages : List Bubble) (m : Message) (rest : List Key) :
    ((messages ++ [messageDiv m]).map Bubble.key ++ rest).Perm
      (key m :: (messages.map Bubble.key ++ rest)) := by
  rw [List.map_append, List.append_assoc]
  exact List.perm_middle

theorem Formed.answer {i : ℕ} (h : page.Formed known) (hs : page.answer i = some page') :
    page'.Formed known := by
  have hposts : ∀ post ∈ page.posts.eraseIdx i, ∀ m ∈ post.msg, m.dialogId = post.dialogId :=
    fun post hmem ↦ h.posts post (List.mem_of_mem_eraseIdx hmem)
  obtain ⟨post, m, -, -, ⟨-, rfl⟩ | ⟨-, rfl⟩⟩ := answer_eq hs
  · exact { h with posts := hposts }
  · exact { h with posts := hposts }

theorem Tracked.answer {i : ℕ} (h : page.Tracked known published) (hformed : page.Formed known)
    (hs : page.answer i = some page') : page'.Tracked known published := by
  obtain ⟨post, m, hget, hmsg, ⟨hdialog, rfl⟩ | ⟨-, rfl⟩⟩ := answer_eq hs
  · have hcopies := copies_answer hget hmsg
    refine { h with copies := ?_, due := ?_, queued := ?_ }
    · intro k hk
      exact h.copies k (hcopies.mem_iff.mpr ((copies_bubble ..).mem_iff.mp hk))
    · intro k hk
      rcases List.mem_cons.mp hk with rfl | hk
      · rw [hdialog, key, hformed.posts post (List.mem_of_getElem? hget) m hmsg]
      · exact h.due k hk
    · exact fun m' hm' hopen ↦ List.mem_cons_of_mem _ (h.queued m' hm' hopen)
  · refine { h with copies := ?_ }
    intro k hk
    exact h.copies k ((copies_answer hget hmsg).mem_iff.mpr (List.mem_cons_of_mem _ hk))

theorem Sound.answer {i : ℕ} (h : page.Sound) (htracked : page.Tracked known published)
    (hformed : page.Formed known) (hs : page.answer i = some page') : page'.Sound := by
  obtain ⟨post, m, hget, hmsg, ⟨-, rfl⟩ | ⟨hdialog, rfl⟩⟩ := answer_eq hs
  · have hcopies := (copies_bubble page.messages m _).trans (copies_answer hget hmsg).symm
    constructor
    case single => exact hcopies.nodup_iff.mpr h.single
    case covered =>
      refine h.covered.imp_right fun hcovered k hk ↦ ?_
      rcases List.mem_cons.mp hk with rfl | hk
      · exact .inl ((copies_bubble ..).mem_iff.mpr List.mem_cons_self)
      · exact (hcovered k hk).imp_left hcopies.mem_iff.mpr
  · have hcopies := copies_answer hget hmsg
    constructor
    case single => exact (List.nodup_cons.mp (hcopies.nodup_iff.mp h.single)).2
    case covered =>
      refine h.covered.imp_right fun hcovered k hk ↦ ?_
      refine (hcovered k hk).imp_left fun hk' ↦ ?_
      refine (List.mem_cons.mp (hcopies.mem_iff.mp hk')).resolve_left ?_
      rintro rfl
      -- What is due belongs to the open dialog, and the message to another one.
      refine hdialog ((htracked.due _ hk).trans (congrArg some ?_))
      exact hformed.posts post (List.mem_of_getElem? hget) m hmsg

theorem Formed.mono {known' : List Message} (h : page.Formed known)
    (hsub : ∀ m ∈ known, m ∈ known') : page.Formed known' :=
  { h with
    items := fun request hmem items hitems ↦
      ⟨(h.items request hmem items hitems).1, fun m hm ↦
        ⟨hsub m ((h.items request hmem items hitems).2 m hm).1,
          ((h.items request hmem items hitems).2 m hm).2⟩⟩ }

theorem Tracked.mono {known' : List Message} (h : page.Tracked known published)
    (hsub : ∀ m ∈ known, m ∈ known') : page.Tracked known' published := by
  refine { h with copies := ?_ }
  intro k hk
  obtain ⟨m, hm, rfl⟩ := List.mem_map.mp (h.copies k hk)
  exact List.mem_map_of_mem (hsub m hm)

end Page

/-! ## All pages -/

namespace World

/-- What holds in every run. -/
structure Tracked (w : World) : Prop where
  keys : (w.known.map key).Nodup
  published : ∀ m ∈ w.published, m ∈ w.known
  formed : ∀ page ∈ w.pages, page.Formed w.known
  pages : ∀ page ∈ w.pages, page.Tracked w.known w.published

def Sound (w : World) : Prop := ∀ page ∈ w.pages, page.Sound

/-- On every page, a message that is due has one bubble when its copies have arrived. -/
def Once (w : World) : Prop := ∀ page ∈ w.pages, page.Once

/-- The copies of the messages meet in the right order. -/
def Meets (w : World) : Event → Prop
  | .drop p => ∀ page ∈ w.pages[p]?, page.Survives
  | .publish m => ∀ page ∈ w.pages, page.Hears m
  | .check p out => ∀ page ∈ w.pages[p]?, page.Suits out
  | .swap p i => ∀ page ∈ w.pages[p]?, page.Fits i
  | .dismiss p i => ∀ page ∈ w.pages[p]?, page.Spares i
  | _ => True

instance (w : World) (e : Event) : Decidable (w.Meets e) :=
  match e with
  | .drop p => inferInstanceAs (Decidable (∀ page ∈ w.pages[p]?, page.Survives))
  | .publish m => inferInstanceAs (Decidable (∀ page ∈ w.pages, page.Hears m))
  | .check p out => inferInstanceAs (Decidable (∀ page ∈ w.pages[p]?, page.Suits out))
  | .swap p i => inferInstanceAs (Decidable (∀ page ∈ w.pages[p]?, page.Fits i))
  | .dismiss p i => inferInstanceAs (Decidable (∀ page ∈ w.pages[p]?, page.Spares i))
  | .load _ | .openDialog _ _ | .connect _ | .subscribe _ | .receive _ | .fetch _ _ | .frame _
  | .history _ _ _ | .post _ _ | .sent _ _ _ | .refused _ _ | .record _ _ | .answer _ _ =>
    .isTrue trivial

/-- Streams read the buckets of their pages, and the copies meet in the right order. -/
def Merges (w : World) (e : Event) : Prop := w.Links e ∧ w.Meets e

instance (w : World) (e : Event) : Decidable (w.Merges e) :=
  inferInstanceAs (Decidable (_ ∧ _))

variable {w w' : World} {p : ℕ} {f : Page → Option Page}

theorem Tracked.onPage (h : w.Tracked)
    (hformed : ∀ page ∈ w.pages, ∀ page', f page = some page' → page'.Formed w.known)
    (htracked : ∀ page ∈ w.pages, ∀ page', f page = some page' →
      page'.Tracked w.known w.published)
    (hs : w.onPage p f = some w') : w'.Tracked := by
  obtain ⟨page, page', hget, hf, rfl⟩ := onPage_eq hs
  have hmem := List.mem_of_getElem? hget
  refine { h with formed := ?_, pages := ?_ }
  · intro page₁ hmem₁
    rcases List.mem_or_eq_of_mem_set hmem₁ with hmem₁ | rfl
    · exact h.formed page₁ hmem₁
    · exact hformed page hmem _ hf
  · intro page₁ hmem₁
    rcases List.mem_or_eq_of_mem_set hmem₁ with hmem₁ | rfl
    · exact h.pages page₁ hmem₁
    · exact htracked page hmem _ hf

theorem Sound.onPage (h : w.Sound)
    (hf : ∀ page ∈ w.pages[p]?, ∀ page', f page = some page' → page'.Sound)
    (hs : w.onPage p f = some w') : w'.Sound := by
  obtain ⟨page, page', hget, hpage, rfl⟩ := onPage_eq hs
  intro page₁ hmem₁
  rcases List.mem_or_eq_of_mem_set hmem₁ with hmem₁ | rfl
  · exact h page₁ hmem₁
  · exact hf page hget _ hpage

theorem Tracked.append {m : Message} (h : w.Tracked) (hs : w.append m = some w') :
    w'.Tracked := by
  obtain ⟨hnew, rfl⟩ := append_eq hs
  have hsub : ∀ x ∈ w.known, x ∈ w.known ++ [m] := fun x hx ↦ List.mem_append_left _ hx
  constructor
  case keys =>
    show ((w.known ++ [m]).map key).Nodup
    rw [List.map_append]
    refine List.nodup_append.mpr ⟨h.keys, List.nodup_singleton _, ?_⟩
    rintro a ha b hb rfl
    exact hnew (List.mem_singleton.mp hb ▸ ha)
  case published => exact fun x hx ↦ hsub x (h.published x hx)
  case formed => exact fun page hmem ↦ (h.formed page hmem).mono hsub
  case pages => exact fun page hmem ↦ (h.pages page hmem).mono hsub

/-- The table of the buckets is of no account. -/
theorem Tracked.sentIds (h : w.Tracked) (sentIds : SentIds) :
    Tracked { w with sentIds } := { h with }

theorem Sound.sentIds (h : w.Sound) (sentIds : SentIds) : Sound { w with sentIds } := h

theorem Tracked.takeBucket {page : Page} (h : w.Tracked) (hs : w.takeBucket page p = some w') :
    w'.Tracked := by
  refine (h.sentIds _).onPage ?_ ?_ hs
  · rintro page₁ hmem _ ⟨⟩
    exact (h.formed page₁ hmem).take _
  · rintro page₁ hmem _ ⟨⟩
    exact (h.pages page₁ hmem).keep (.take _)

theorem Sound.takeBucket {page : Page} (h : w.Sound) (hs : w.takeBucket page p = some w') :
    w'.Sound := by
  refine (h.sentIds _).onPage ?_ hs
  rintro page₁ hget _ ⟨⟩
  exact (h page₁ (List.mem_of_getElem? hget)).keep (.take _)

theorem Tracked.load (h : w.Tracked) (clientId : List Char) :
    Tracked { w with pages := w.pages ++ [{ clientId }] } := by
  refine { h with formed := ?_, pages := ?_ }
  · intro page hmem
    rcases List.mem_append.mp hmem with hmem | hmem
    · exact h.formed page hmem
    · rw [List.mem_singleton.mp hmem]
      constructor <;> rintro _ ⟨⟩
  · intro page hmem
    rcases List.mem_append.mp hmem with hmem | hmem
    · exact h.pages page hmem
    · rw [List.mem_singleton.mp hmem]
      constructor
      case nodup => exact List.nodup_nil
      all_goals rintro _ ⟨⟩

theorem Sound.load (h : w.Sound) (clientId : List Char) :
    Sound { w with pages := w.pages ++ [{ clientId }] } := by
  intro page hmem
  rcases List.mem_append.mp hmem with hmem | hmem
  · exact h page hmem
  · rw [List.mem_singleton.mp hmem]
    exact ⟨List.nodup_nil, .inr fun k hk ↦ absurd hk List.not_mem_nil⟩

theorem Tracked.publish {m : Message} (h : w.Tracked) (hm : m ∈ w.known) (hnew : m ∉ w.published) :
    Tracked { w with published := w.published ++ [m], pages := w.pages.map (·.hear m) } := by
  refine { h with published := ?_, formed := ?_, pages := ?_ }
  · intro x hx
    rcases List.mem_append.mp hx with hx | hx
    · exact h.published x hx
    · exact List.mem_singleton.mp hx ▸ hm
  · intro page' hmem'
    obtain ⟨page, hmem, rfl⟩ := List.mem_map.mp hmem'
    exact (h.formed page hmem).hear m
  · intro page' hmem'
    obtain ⟨page, hmem, rfl⟩ := List.mem_map.mp hmem'
    exact (h.pages page hmem).hear ((h.pages page hmem).fresh h.keys h.published hm hnew)

theorem Sound.publish {m : Message} (h : w.Sound) (htracked : w.Tracked)
    (hhears : ∀ page ∈ w.pages, page.Hears m) :
    Sound { w with published := w.published ++ [m], pages := w.pages.map (·.hear m) } := by
  intro page' hmem'
  obtain ⟨page, hmem, rfl⟩ := List.mem_map.mp hmem'
  exact (h page hmem).hear (htracked.pages page hmem) (hhears page hmem)

theorem Tracked.step {e : Event} (h : w.Tracked) (hs : step w e = some w') : w'.Tracked := by
  have hformed := h.formed
  have hpages := h.pages
  cases e with
  | load clientId =>
    obtain rfl := Option.some.inj hs
    exact h.load clientId
  | openDialog p dialogId =>
    refine h.onPage ?_ ?_ hs
    · rintro page hmem _ ⟨⟩
      exact (hformed page hmem).openDialog dialogId
    · rintro page hmem _ ⟨⟩
      exact (hpages page hmem).openDialog dialogId
  | connect p =>
    have hs : w.withBucket p (fun n w ↦ w.onPage p (·.connect n)) = some w' := hs
    obtain ⟨page₀, w₁, -, htake, hs⟩ := withBucket_eq hs
    have h₁ := h.takeBucket htake
    refine h₁.onPage ?_ ?_ hs
    · exact fun page hmem page' hs ↦ (h₁.formed page hmem).connect hs
    · exact fun page hmem page' hs ↦ (h₁.pages page hmem).keep (.connect hs)
  | subscribe p =>
    refine h.onPage ?_ ?_ hs
    · exact fun page hmem page' hs ↦ (hformed page hmem).subscribe hs
    · exact fun page hmem page' hs ↦ (hpages page hmem).keep (.subscribe hs)
  | drop p =>
    refine h.onPage ?_ ?_ hs
    · rintro page hmem _ ⟨⟩
      exact (hformed page hmem).drop
    · rintro page hmem _ ⟨⟩
      exact (hpages page hmem).drop
  | receive m => exact h.append hs
  | publish m =>
    obtain ⟨⟨hm, hnew⟩, hs⟩ := Option.ite_none_right_eq_some.mp hs
    obtain rfl := Option.some.inj hs
    exact h.publish hm hnew
  | fetch p out =>
    refine h.onPage ?_ ?_ hs
    · exact fun page hmem page' hs ↦ (hformed page hmem).fetch hs
    · exact fun page hmem page' hs ↦ (hpages page hmem).keep (.fetch hs)
  | check p out =>
    refine h.onPage ?_ ?_ hs
    · exact fun page hmem page' hs ↦ (hformed page hmem).check hs
    · exact fun page hmem page' hs ↦ (hpages page hmem).check (hformed page hmem) h.published hs
  | frame p =>
    refine h.onPage ?_ ?_ hs
    · exact fun page hmem page' hs ↦ (hformed page hmem).frame hs
    · exact fun page hmem page' hs ↦ (hpages page hmem).keep (.frame hs)
  | history p i items =>
    obtain ⟨hitems, hs⟩ := Option.ite_none_right_eq_some.mp hs
    refine h.onPage ?_ ?_ hs
    · exact fun page hmem page' hs ↦ (hformed page hmem).history hitems hs
    · exact fun page hmem page' hs ↦ (hpages page hmem).keep (.history hs)
  | swap p i =>
    refine h.onPage ?_ ?_ hs
    · exact fun page hmem page' hs ↦ (hformed page hmem).swap hs
    · exact fun page hmem page' hs ↦ (hpages page hmem).swap (hformed page hmem) hs
  | dismiss p i =>
    refine h.onPage ?_ ?_ hs
    · exact fun page hmem page' hs ↦ (hformed page hmem).dismiss hs
    · exact fun page hmem page' hs ↦ (hpages page hmem).dismiss hs
  | post p dialogId =>
    refine h.onPage ?_ ?_ hs
    · rintro page hmem _ ⟨⟩
      exact (hformed page hmem).post dialogId
    · rintro page hmem _ ⟨⟩
      exact (hpages page hmem).keep (.post dialogId)
  | sent p i m =>
    obtain ⟨w₁, happend, hs⟩ := Option.bind_eq_some_iff.mp hs
    have h₁ := h.append happend
    obtain ⟨-, rfl⟩ := append_eq happend
    refine h₁.onPage ?_ ?_ hs
    · exact fun page hmem page' hs ↦ (h₁.formed page hmem).sent hs
    · exact fun page hmem page' hs ↦
        (h₁.pages page hmem).sent (List.mem_append_right _ List.mem_cons_self) hs
  | refused p i =>
    refine h.onPage ?_ ?_ hs
    · exact fun page hmem page' hs ↦ (hformed page hmem).refused hs
    · exact fun page hmem page' hs ↦ (hpages page hmem).keep (.refused hs)
  | record p i =>
    obtain ⟨m, -, hs⟩ := Option.bind_eq_some_iff.mp hs
    obtain ⟨page₀, w₁, -, htake, hs⟩ := withBucket_eq hs
    have h₁ := h.takeBucket htake
    refine (h₁.sentIds _).onPage ?_ ?_ hs
    · rintro page hmem _ ⟨⟩
      exact (h₁.formed page hmem).record i (key m)
    · rintro page hmem _ ⟨⟩
      exact (h₁.pages page hmem).keep (.record i (key m))
  | answer p i =>
    refine h.onPage ?_ ?_ hs
    · exact fun page hmem page' hs ↦ (hformed page hmem).answer hs
    · exact fun page hmem page' hs ↦ (hpages page hmem).answer (hformed page hmem) hs

theorem Sound.step {e : Event} (h : w.Sound) (htracked : w.Tracked) (hlinked : w.Linked)
    (hmeets : w.Meets e) (hs : step w e = some w') : w'.Sound := by
  have hpage : ∀ {p : ℕ} {page : Page}, page ∈ w.pages[p]? → page.Sound := fun hget ↦
    h _ (List.mem_of_getElem? hget)
  have htracked' : ∀ {p : ℕ} {page : Page}, page ∈ w.pages[p]? →
      page.Tracked w.known w.published := fun hget ↦ htracked.pages _ (List.mem_of_getElem? hget)
  have hformed : ∀ {p : ℕ} {page : Page}, page ∈ w.pages[p]? → page.Formed w.known :=
    fun hget ↦ htracked.formed _ (List.mem_of_getElem? hget)
  cases e with
  | load clientId =>
    obtain rfl := Option.some.inj hs
    exact h.load clientId
  | openDialog p dialogId =>
    refine h.onPage ?_ hs
    rintro page hget _ ⟨⟩
    exact (hpage hget).openDialog dialogId
  | connect p =>
    have hs : w.withBucket p (fun n w ↦ w.onPage p (·.connect n)) = some w' := hs
    obtain ⟨page₀, w₁, -, htake, hs⟩ := withBucket_eq hs
    have h₁ := h.takeBucket htake
    refine h₁.onPage ?_ hs
    exact fun page hget page' hs ↦ (h₁ page (List.mem_of_getElem? hget)).keep (.connect hs)
  | subscribe p =>
    refine h.onPage ?_ hs
    exact fun page hget page' hs ↦ (hpage hget).keep (.subscribe hs)
  | drop p =>
    refine h.onPage ?_ hs
    rintro page hget _ ⟨⟩
    exact (hpage hget).drop (htracked' hget) (hmeets page hget)
  | receive m =>
    obtain ⟨-, rfl⟩ := append_eq hs
    exact h
  | publish m =>
    obtain ⟨-, hs⟩ := Option.ite_none_right_eq_some.mp hs
    obtain rfl := Option.some.inj hs
    exact h.publish htracked hmeets
  | fetch p out =>
    refine h.onPage ?_ hs
    exact fun page hget page' hs ↦ (hpage hget).keep (.fetch hs)
  | check p out =>
    refine h.onPage ?_ hs
    exact fun page hget page' hs ↦ (hpage hget).check (htracked' hget) (hformed hget)
      (hlinked.fed page (List.mem_of_getElem? hget)) (hmeets page hget) hs
  | frame p =>
    refine h.onPage ?_ hs
    exact fun page hget page' hs ↦ (hpage hget).keep (.frame hs)
  | history p i items =>
    obtain ⟨-, hs⟩ := Option.ite_none_right_eq_some.mp hs
    refine h.onPage ?_ hs
    exact fun page hget page' hs ↦ (hpage hget).keep (.history hs)
  | swap p i =>
    refine h.onPage ?_ hs
    exact fun page hget page' hs ↦ (hpage hget).swap (hformed hget) (hmeets page hget) hs
  | dismiss p i =>
    refine h.onPage ?_ hs
    exact fun page hget page' hs ↦ (hpage hget).dismiss (hmeets page hget) hs
  | post p dialogId =>
    refine h.onPage ?_ hs
    rintro page hget _ ⟨⟩
    exact (hpage hget).keep (.post dialogId)
  | sent p i m =>
    obtain ⟨w₁, happend, hs⟩ := Option.bind_eq_some_iff.mp hs
    obtain ⟨hnew, rfl⟩ := append_eq happend
    have h₁ : Sound { w with known := w.known ++ [m] } := h
    refine h₁.onPage ?_ hs
    exact fun page hget page' hs ↦
      (hpage hget).sent (fun hmem ↦ hnew ((htracked' hget).copies _ hmem)) hs
  | refused p i =>
    refine h.onPage ?_ hs
    exact fun page hget page' hs ↦ (hpage hget).keep (.refused hs)
  | record p i =>
    obtain ⟨m, -, hs⟩ := Option.bind_eq_some_iff.mp hs
    obtain ⟨page₀, w₁, -, htake, hs⟩ := withBucket_eq hs
    have h₁ := h.takeBucket htake
    refine (h₁.sentIds _).onPage ?_ hs
    rintro page hget _ ⟨⟩
    exact (h₁ page (List.mem_of_getElem? hget)).keep (.record i (key m))
  | answer p i =>
    refine h.onPage ?_ hs
    exact fun page hget page' hs ↦
      (hpage hget).answer (htracked' hget) (hformed hget) hs

theorem tracked_init : init.Tracked := by
  constructor
  case keys => exact List.nodup_nil
  all_goals rintro _ ⟨⟩

theorem sound_init : init.Sound := by rintro page ⟨⟩

/-- As long as the copies meet in the right order, a message has one bubble on every page. -/
theorem bubbles_once (hrun : Machine.Runs step Merges init w) : w.Once := by
  have hkept : w.Tracked ∧ w.Linked ∧ w.Sound := by
    refine hrun.preserves (I := fun w ↦ w.Tracked ∧ w.Linked ∧ w.Sound) ?_
      ⟨tracked_init, linked_init, sound_init⟩
    rintro w w' e ⟨htracked, hlinked, hsound⟩ hmerges hs
    exact ⟨htracked.step hs, hlinked.step hmerges.1 hs,
      hsound.step htracked hlinked hmerges.2 hs⟩
  exact fun page hmem ↦ (hkept.2.2 page hmem).once

/-- The dialog 7 is open on a page, its history has arrived, and its stream is live. -/
def opened : List Event :=
  [.load ['a'], .openDialog 0 7, .history 0 0 [], .swap 0 0, .connect 0, .subscribe 0,
    .post 0 7, .sent 0 0 (hello 1 true)]

/-- The page sends a message, its echo is left out, and another message arrives. -/
def exchange : List Event := opened ++
  [.record 0 0, .publish (hello 1 true), .fetch 0 true, .check 0 true, .answer 0 0,
    .receive (hello 2 false), .publish (hello 2 false), .fetch 0 false, .check 0 false, .frame 0]

theorem bubbles_once_exchange : ∃ w, Machine.Runs step Merges init w ∧ w.Once ∧
    w.pages.map (fun page ↦ page.messages.map Bubble.key) = [[(7, 1), (7, 2)]] := by
  have hexec : (((step.guarded Merges).exec init exchange).any fun w ↦
      w.pages.map (fun page ↦ page.messages.map Bubble.key) = [[(7, 1), (7, 2)]]) = true := by
    decide +kernel
  obtain ⟨w, hrun, hbubbles⟩ := Machine.exists_run_of_exec hexec
  exact ⟨w, hrun, bubbles_once hrun, hbubbles⟩

/-- The loop looks at the echo before the handler of the request goes on, and the page has two
bubbles; or a message is published when the history has arrived and the stream has not subscribed
yet, and the page has none. -/
theorem bubbles_not_once :
    (∃ w, Machine.Runs step Machine.anyEvent init w ∧ ¬ w.Once ∧
      w.pages.map (fun page ↦ page.messages.map Bubble.key) = [[(7, 1), (7, 1)]]) ∧
    ∃ w, Machine.Runs step Machine.anyEvent init w ∧ ¬ w.Once ∧
      w.pages.map (fun page ↦ page.messages.map Bubble.key) = [[]] := by
  constructor
  · have hexec : (((step.guarded fun _ _ ↦ True).exec init (opened ++ [.publish (hello 1 true),
        .fetch 0 true, .check 0 true, .frame 0, .record 0 0, .answer 0 0])).any fun w ↦
          (∃ page ∈ w.pages, page.histories.isEmpty = true ∧
            page.frameKeys ++ page.postKeys ++ page.queued = [] ∧ (7, 1) ∈ page.due ∧
            (page.messages.map Bubble.key).count (7, 1) ≠ 1) ∧
          w.pages.map (fun page ↦ page.messages.map Bubble.key) = [[(7, 1), (7, 1)]]) = true := by
      decide +kernel
    obtain ⟨w, hrun, ⟨page, hmem, hhistories, hrest, hdue, hcount⟩, hshown⟩ :=
      Machine.exists_run_of_exec hexec
    exact ⟨w, hrun, fun h ↦ Page.not_once hhistories hrest hdue hcount (h page hmem), hshown⟩
  · have hexec : (((step.guarded fun _ _ ↦ True).exec init [.load ['a'], .openDialog 0 7,
        .connect 0, .history 0 0 [], .swap 0 0, .receive (hello 2 false), .publish (hello 2 false),
        .subscribe 0]).any fun w ↦
          (∃ page ∈ w.pages, page.histories.isEmpty = true ∧
            page.frameKeys ++ page.postKeys ++ page.queued = [] ∧ (7, 2) ∈ page.due ∧
            (page.messages.map Bubble.key).count (7, 2) ≠ 1) ∧
          w.pages.map (fun page ↦ page.messages.map Bubble.key) = [[]]) = true := by
      decide +kernel
    obtain ⟨w, hrun, ⟨page, hmem, hhistories, hrest, hdue, hcount⟩, hshown⟩ :=
      Machine.exists_run_of_exec hexec
    exact ⟨w, hrun, fun h ↦ Page.not_once hhistories hrest hdue hcount (h page hmem), hshown⟩

end World

end TgMessenger.Web.Bubbles
