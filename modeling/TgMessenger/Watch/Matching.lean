import TgMessenger.Watch.Watcher
import TgMessenger.Data.History
import Mathlib.Data.List.Induction

/-!
# What is matched

An event about a deletion selects the messages of the cache that it covers, and takes them out
of it: one that was remembered once is selected once.  Otherwise a message leaves the cache
only as the oldest, for a new one that does not fit.
-/

namespace TgMessenger.Watch

/-- Whether an event may be about a message of the dialog. -/
def Covers (ev : MessagesDeletedEvent) (dialogId : ℤ) : Prop :=
  match ev.chatId with
  | some chatId => dialogId = chatId
  | none => isChannelOrMegagroupId dialogId = false

/-- The message is in a cache. -/
def Cached (cache : OrderedDict Key CachedMessage) (entry : CachedMessage) : Prop :=
  (entry.key, entry) ∈ cache.items

/-- Every message is kept under its own key. -/
def Keyed (cache : OrderedDict Key CachedMessage) : Prop := ∀ e ∈ cache.items, e.1 = e.2.key

/-- The last that happened to its key is that it was remembered. -/
def Latest (history : List Fate) (entry : CachedMessage) : Prop :=
  ∃ before after, history = before ++ .remembered entry :: after ∧
    ∀ f ∈ after, f.entry.key ≠ entry.key

/-- How often a message with the key was remembered. -/
def timesRemembered (key : Key) (history : List Fate) : ℕ :=
  history.countP fun
    | .remembered entry => entry.key = key
    | _ => false

/-- How often a message with the key was selected for a report. -/
def timesSelected (key : Key) (history : List Fate) : ℕ :=
  history.countP fun
    | .selected entry => entry.key = key
    | _ => false

theorem Latest.append {history : List Fate} {entry : CachedMessage} (h : Latest history entry)
    {fates : List Fate} (hfates : ∀ f ∈ fates, f.entry.key ≠ entry.key) :
    Latest (history ++ fates) entry := by
  obtain ⟨before, after, rfl, hafter⟩ := h
  refine ⟨before, after ++ fates, by rw [List.append_assoc, List.cons_append], ?_⟩
  intro f hf
  rcases List.mem_append.mp hf with hf | hf
  · exact hafter f hf
  · exact hfates f hf

theorem Keyed.get?_eq_some_iff {cache : OrderedDict Key CachedMessage} (hcache : Keyed cache)
    {key : Key} {entry : CachedMessage} :
    cache.get? key = some entry ↔ Cached cache entry ∧ entry.key = key := by
  rw [OrderedDict.get?_eq_some_iff, Cached]
  constructor
  · intro h
    obtain rfl : key = entry.key := hcache _ h
    exact ⟨h, rfl⟩
  · rintro ⟨h, rfl⟩
    exact h

/-! ## Taking out of the cache -/

namespace Watcher

/-- What is left is what none of the keys is for. -/
theorem items_popAll (keys : List Key) (cache : OrderedDict Key CachedMessage) :
    (popAll keys cache).2.items = cache.items.filter fun e ↦ decide (e.1 ∉ keys) := by
  induction keys generalizing cache with
  | nil =>
    rw [List.filter_eq_self.mpr (by simp)]
    rfl
  | cons key keys ih =>
    rw [popAll]
    cases hget : cache.get? key with
    | none =>
      dsimp only
      rw [ih]
      apply List.filter_congr
      intro e he
      have hne : e.1 ≠ key := by
        rintro rfl
        exact OrderedDict.get?_eq_none_iff.mp hget (List.mem_map_of_mem he)
      simp [hne]
    | some entry =>
      dsimp only
      rw [ih, OrderedDict.items_erase, List.filter_filter]
      apply List.filter_congr
      intro e _
      simp [Bool.and_comm]

/-- What comes out is what one of the keys is for. -/
theorem mem_popAll {keys : List Key} {cache : OrderedDict Key CachedMessage}
    {entry : CachedMessage} :
    entry ∈ (popAll keys cache).1 ↔ ∃ key ∈ keys, cache.get? key = some entry := by
  induction keys generalizing cache with
  | nil => simp [popAll]
  | cons key keys ih =>
    rw [popAll]
    cases hget : cache.get? key with
    | none =>
      dsimp only
      rw [ih]
      simp [hget]
    | some entry' =>
      dsimp only
      rw [List.mem_cons, ih]
      constructor
      · rintro (rfl | ⟨key', hmem, hkey'⟩)
        · exact ⟨key, List.mem_cons_self, hget⟩
        · rw [OrderedDict.get?_erase] at hkey'
          split_ifs at hkey'
          exact ⟨key', List.mem_cons_of_mem _ hmem, hkey'⟩
      · rintro ⟨key', hmem, hkey'⟩
        by_cases hk : key' = key
        · rw [hk, hget, Option.some.injEq] at hkey'
          exact .inl hkey'.symm
        · refine .inr ⟨key', (List.mem_cons.mp hmem).resolve_left hk, ?_⟩
          rw [OrderedDict.get?_erase_ne _ hk, hkey']

/-- Nothing comes out twice. -/
theorem nodup_popAll {keys : List Key} {cache : OrderedDict Key CachedMessage}
    (hcache : Keyed cache) : ((popAll keys cache).1.map CachedMessage.key).Nodup := by
  induction keys generalizing cache with
  | nil => exact List.nodup_nil
  | cons key keys ih =>
    rw [popAll]
    cases hget : cache.get? key with
    | none => exact ih hcache
    | some entry =>
      have herase : Keyed (cache.erase key) := fun e he ↦
        hcache e (OrderedDict.mem_items_erase.mp he).1
      obtain ⟨-, hkey⟩ := hcache.get?_eq_some_iff.mp hget
      dsimp only
      rw [List.map_cons, List.nodup_cons]
      refine ⟨?_, ih herase⟩
      intro hmem
      obtain ⟨entry', hentry', hsame⟩ := List.mem_map.mp hmem
      obtain ⟨key', -, hkey'⟩ := mem_popAll.mp hentry'
      obtain ⟨hcached, -⟩ := herase.get?_eq_some_iff.mp hkey'
      exact (OrderedDict.mem_items_erase.mp hcached).2 (hsame.trans hkey)

/-- An event selects the messages in the cache that have one of its ids in a dialog that it may
be about. -/
theorem mem_matchDeleted {cache : OrderedDict Key CachedMessage} (hcache : Keyed cache)
    {ev : MessagesDeletedEvent} {entry : CachedMessage} :
    entry ∈ (matchDeleted cache ev).1 ↔
      Cached cache entry ∧ entry.messageId ∈ ev.messageIds ∧ Covers ev entry.dialogId := by
  rw [matchDeleted, mem_popAll]
  simp only [hcache.get?_eq_some_iff]
  rw [matchedKeys, Covers]
  cases ev.chatId with
  | some chatId =>
    constructor
    · rintro ⟨key, hkey, hcached, rfl⟩
      obtain ⟨id, hid, heq⟩ := List.mem_map.mp hkey
      obtain ⟨rfl, rfl⟩ := Prod.mk.inj heq
      exact ⟨hcached, hid, rfl⟩
    · rintro ⟨hcached, hid, rfl⟩
      exact ⟨_, List.mem_map_of_mem hid, hcached, rfl⟩
  | none =>
    constructor
    · rintro ⟨key, hkey, hcached, rfl⟩
      obtain ⟨e, he, heq⟩ := List.mem_map.mp hkey
      obtain ⟨hmem, hmatch⟩ := List.mem_filter.mp he
      rw [Bool.and_eq_true, decide_eq_true_eq, Bool.not_eq_true'] at hmatch
      have hget := (OrderedDict.get?_eq_some_iff (d := cache)).mpr hmem
      rw [heq, OrderedDict.get?_eq_some_iff.mpr hcached, Option.some.injEq] at hget
      subst hget
      exact ⟨hcached, hmatch⟩
    · rintro ⟨hcached, hid, hcovers⟩
      refine ⟨entry.key, List.mem_map.mpr ⟨(entry.key, entry), ?_, rfl⟩, hcached, rfl⟩
      rw [List.mem_filter, Bool.and_eq_true, decide_eq_true_eq, Bool.not_eq_true']
      exact ⟨hcached, hid, hcovers⟩

/-! ## Groups -/

/-- The groups are of the matched messages, each in the group of its dialog. -/
theorem mem_byDialog {matched : List CachedMessage} {dialogId : ℤ} {entry : CachedMessage} :
    entry ∈ ((byDialog matched).get? dialogId).getD [] ↔
      entry ∈ matched ∧ entry.dialogId = dialogId := by
  induction matched using List.reverseRecOn with
  | nil => simp [byDialog]
  | append_singleton matched e ih =>
    rw [byDialog, List.foldl_concat, ← byDialog, OrderedDict.get?_set, List.mem_append,
      List.mem_singleton]
    by_cases hd : dialogId = e.dialogId
    · subst hd
      rw [if_pos rfl, Option.getD_some, List.mem_append, List.mem_singleton, ih]
      constructor
      · rintro (⟨hmem, hd⟩ | rfl)
        · exact ⟨.inl hmem, hd⟩
        · exact ⟨.inr rfl, rfl⟩
      · rintro ⟨hmem | rfl, hd⟩
        · exact .inl ⟨hmem, hd⟩
        · exact .inr rfl
    · rw [if_neg hd, ih]
      constructor
      · rintro ⟨hmem, hentry⟩
        exact ⟨.inl hmem, hentry⟩
      · rintro ⟨hmem | rfl, hentry⟩
        · exact ⟨hmem, hentry⟩
        · exact absurd hentry.symm hd

theorem of_mem_byDialog {matched : List CachedMessage} {group : ℤ × List CachedMessage}
    (hgroup : group ∈ (byDialog matched).items) {entry : CachedMessage} (h : entry ∈ group.2) :
    entry ∈ matched ∧ entry.dialogId = group.1 := by
  rw [← mem_byDialog, OrderedDict.get?_eq_some_iff.mpr hgroup]
  exact h

end Watcher

/-! ## The cache and its history -/

/-- A selected message is one whose key was remembered with it since it was last selected. -/
def Due (history : List Fate) (fate : Fate) : Prop :=
  ∀ entry, fate = .selected entry → Latest history entry

/-- The cache holds what was remembered last, of other dialogs than Saved Messages. -/
structure Ledger (cfg : Setup) (cache : OrderedDict Key CachedMessage) (history : List Fate) :
    Prop where
  keyed : Keyed cache
  own : ∀ f ∈ history, f.entry.dialogId ≠ cfg.selfId
  latest : ∀ entry, Cached cache entry → Latest history entry
  due : History.Justified Due history
  count : ∀ key, timesSelected key history + (if key ∈ cache.keys then 1 else 0) ≤
    timesRemembered key history

theorem timesSelected_append (key : Key) (history fates : List Fate) :
    timesSelected key (history ++ fates) = timesSelected key history + timesSelected key fates :=
  List.countP_append

theorem timesRemembered_append (key : Key) (history fates : List Fate) :
    timesRemembered key (history ++ fates) =
      timesRemembered key history + timesRemembered key fates := List.countP_append

/-- What has the key once is selected once at most. -/
theorem timesSelected_le (key : Key) {fates : List Fate}
    (hnodup : (fates.map fun f ↦ f.entry.key).Nodup) :
    timesSelected key fates ≤ if key ∈ fates.map (fun f ↦ f.entry.key) then 1 else 0 := by
  have hle : timesSelected key fates ≤ (fates.map fun f ↦ f.entry.key).count key := by
    rw [List.count, List.countP_map]
    apply List.countP_mono_left
    intro f _ hf
    cases f with
    | selected entry => simpa [Fate.entry] using hf
    | remembered entry => cases hf
    | evicted entry => cases hf
  split_ifs with hkey
  · exact hle.trans (List.nodup_iff_count_le_one.mp hnodup key)
  · exact hle.trans_eq (List.count_eq_zero.mpr hkey)

namespace Ledger

variable {cfg : Setup} {cache cache' : OrderedDict Key CachedMessage} {history : List Fate}

theorem empty (cfg : Setup) : Ledger cfg .empty [] where
  keyed _ he := absurd he List.not_mem_nil
  own _ hf := absurd hf List.not_mem_nil
  latest _ h := absurd h List.not_mem_nil
  due := History.justified_nil
  count _ := Nat.le_refl 0

/-- A message is in the history when it is in the cache. -/
theorem own_of_cached (h : Ledger cfg cache history) {entry : CachedMessage}
    (hentry : Cached cache entry) : entry.dialogId ≠ cfg.selfId := by
  obtain ⟨before, after, rfl, -⟩ := h.latest entry hentry
  exact h.own (.remembered entry) (List.mem_append_right _ List.mem_cons_self)

/-- A message is remembered. -/
theorem remember (h : Ledger cfg cache history) {entry : CachedMessage}
    (hentry : entry.dialogId ≠ cfg.selfId) :
    Ledger cfg (cache.set entry.key entry) (history ++ [.remembered entry]) := by
  have hold : ∀ e ∈ (cache.set entry.key entry).items,
      e = (entry.key, entry) ∨ e.1 ≠ entry.key ∧ e ∈ cache.items := by
    intro e he
    have hget := OrderedDict.get?_eq_some_iff.mpr he
    rw [OrderedDict.get?_set] at hget
    split_ifs at hget with hkey
    · exact .inl (Prod.ext hkey (Option.some.inj hget).symm)
    · exact .inr ⟨hkey, OrderedDict.get?_eq_some_iff.mp hget⟩
  constructor
  · intro e he
    rcases hold e he with rfl | ⟨-, he⟩
    · rfl
    · exact h.keyed e he
  · intro f hf
    rcases List.mem_append.mp hf with hf | hf
    · exact h.own f hf
    · rw [List.mem_singleton.mp hf]
      exact hentry
  · intro entry' hentry'
    rcases hold _ hentry' with heq | ⟨hne, hcached⟩
    · obtain rfl : entry' = entry := congrArg Prod.snd heq
      exact ⟨history, [], rfl, fun f hf ↦ absurd hf List.not_mem_nil⟩
    · refine (h.latest entry' hcached).append ?_
      intro f hf
      rw [List.mem_singleton.mp hf]
      exact Ne.symm hne
  · refine h.due.concat ?_
    intro entry' heq
    cases heq
  · intro key
    have hcount := h.count key
    have hkeys : key ∈ (cache.set entry.key entry).keys → entry.key = key ∨ key ∈ cache.keys := by
      intro hkey
      obtain ⟨e, he, rfl⟩ := List.mem_map.mp hkey
      rcases hold e he with rfl | ⟨-, he⟩
      · exact .inl rfl
      · exact .inr (List.mem_map_of_mem he)
    have hselected : timesSelected key [.remembered entry] = 0 := rfl
    have hremembered : timesRemembered key [.remembered entry] =
        if entry.key = key then 1 else 0 := by
      simp only [timesRemembered, List.countP_singleton, decide_eq_true_eq]
    rw [timesSelected_append, timesRemembered_append, hselected, hremembered]
    split_ifs at hcount ⊢ <;> first | omega | tauto

/-- Messages of the cache leave it, each once. -/
theorem leave (h : Ledger cfg cache history) {fates : List Fate}
    (hfates : ∀ f ∈ fates, f = .selected f.entry ∨ f = .evicted f.entry)
    (hcached : ∀ f ∈ fates, Cached cache f.entry)
    (hnodup : (fates.map fun f ↦ f.entry.key).Nodup)
    (hcache' : ∀ e ∈ cache'.items, e ∈ cache.items ∧ e.1 ∉ fates.map fun f ↦ f.entry.key) :
    Ledger cfg cache' (history ++ fates) := by
  constructor
  · intro e he
    exact h.keyed e (hcache' e he).1
  · intro f hf
    rcases List.mem_append.mp hf with hf | hf
    · exact h.own f hf
    · exact h.own_of_cached (hcached f hf)
  · intro entry hentry
    obtain ⟨hmem, hkey⟩ := hcache' _ hentry
    refine (h.latest entry hmem).append ?_
    intro f hf hsame
    exact hkey (hsame ▸ List.mem_map_of_mem (f := fun f ↦ f.entry.key) hf)
  · refine h.due.append ?_
    rintro before f after rfl entry rfl
    have hmem : Fate.selected entry ∈ before ++ .selected entry :: after :=
      List.mem_append_right _ List.mem_cons_self
    refine (h.latest entry (hcached _ hmem)).append ?_
    intro f hf hsame
    rw [List.map_append, List.map_cons, List.nodup_append] at hnodup
    exact hnodup.2.2 f.entry.key (List.mem_map_of_mem (f := fun f ↦ f.entry.key) hf)
      entry.key List.mem_cons_self hsame
  · intro key
    have hcount := h.count key
    have hselected := timesSelected_le key hnodup
    have hremembered : timesRemembered key fates = 0 := by
      rw [timesRemembered, List.countP_eq_zero]
      intro f hf
      rcases hfates f hf with heq | heq <;> rw [heq] <;> exact Bool.false_ne_true
    have hkeys : key ∈ cache'.keys → key ∈ cache.keys ∧ key ∉ fates.map fun f ↦ f.entry.key := by
      intro hkey
      obtain ⟨e, he, rfl⟩ := List.mem_map.mp hkey
      obtain ⟨hmem, hnot⟩ := hcache' e he
      exact ⟨List.mem_map_of_mem hmem, hnot⟩
    have hleft : key ∈ fates.map (fun f ↦ f.entry.key) → key ∈ cache.keys := by
      intro hkey
      obtain ⟨f, hf, rfl⟩ := List.mem_map.mp hkey
      exact List.mem_map_of_mem (hcached f hf)
    rw [timesSelected_append, timesRemembered_append, hremembered]
    split_ifs at hcount hselected ⊢ <;> first | omega | tauto

/-- The oldest messages are evicted. -/
theorem evict (h : Ledger cfg cache history) (n : ℕ) :
    Ledger cfg (OrderedDict.popFirst^[n] cache)
      (history ++ (cache.items.take n).map fun e ↦ .evicted e.2) := by
  have hkeys : ((cache.items.take n).map fun e ↦ Fate.evicted e.2).map (fun f ↦ f.entry.key) =
      (cache.items.take n).map Prod.fst := by
    rw [List.map_map]
    exact List.map_congr_left fun e he ↦ (h.keyed e (List.mem_of_mem_take he)).symm
  have hnodup := cache.nodup
  rw [← List.take_append_drop n cache.items, List.map_append, List.nodup_append] at hnodup
  apply h.leave
  · intro f hf
    obtain ⟨e, -, rfl⟩ := List.mem_map.mp hf
    exact .inr rfl
  · intro f hf
    obtain ⟨e, he, rfl⟩ := List.mem_map.mp hf
    have hmem := List.mem_of_mem_take he
    show (e.2.key, e.2) ∈ cache.items
    rwa [← h.keyed e hmem]
  · rw [hkeys]
    exact hnodup.1
  · intro e he
    rw [OrderedDict.items_iterate_popFirst] at he
    rw [hkeys]
    exact ⟨List.mem_of_mem_drop he,
      fun hmem ↦ hnodup.2.2 e.1 hmem e.1 (List.mem_map_of_mem he) rfl⟩

/-- The messages that an event is about are selected. -/
theorem select (h : Ledger cfg cache history) (ev : MessagesDeletedEvent) :
    Ledger cfg (Watcher.matchDeleted cache ev).2
      (history ++ (Watcher.matchDeleted cache ev).1.map .selected) := by
  have hkeys : ((Watcher.matchDeleted cache ev).1.map Fate.selected).map (fun f ↦ f.entry.key) =
      (Watcher.matchDeleted cache ev).1.map CachedMessage.key := by
    rw [List.map_map]
    rfl
  apply h.leave
  · intro f hf
    obtain ⟨entry, -, rfl⟩ := List.mem_map.mp hf
    exact .inl rfl
  · intro f hf
    obtain ⟨entry, hentry, rfl⟩ := List.mem_map.mp hf
    exact ((Watcher.mem_matchDeleted h.keyed).mp hentry).1
  · rw [hkeys]
    exact Watcher.nodup_popAll h.keyed
  · intro e he
    rw [Watcher.matchDeleted, Watcher.items_popAll, List.mem_filter, decide_eq_true_eq] at he
    refine ⟨he.1, ?_⟩
    rw [hkeys]
    intro hmem
    obtain ⟨entry, hentry, hkey⟩ := List.mem_map.mp hmem
    obtain ⟨key, hkeymem, hget⟩ := Watcher.mem_popAll.mp hentry
    obtain ⟨-, rfl⟩ := h.keyed.get?_eq_some_iff.mp hget
    exact he.2 (hkey ▸ hkeymem)

end Ledger

/-! ## Whole runs -/

/-- The groups that `_handle_deleted` has not reported yet. -/
def Handling.groups : Handling → List (ℤ × List CachedMessage)
  | waiting | crashed => []
  | resolving dialogId entries rest => (dialogId, entries) :: rest
  | sending _ _ _ rest => rest

/-- Messages of the dialog that were selected. -/
def Selected (history : List Fate) (dialogId : ℤ) (entries : List CachedMessage) : Prop :=
  ∀ entry ∈ entries, .selected entry ∈ history ∧ entry.dialogId = dialogId

theorem Selected.append {history : List Fate} {dialogId : ℤ} {entries : List CachedMessage}
    (h : Selected history dialogId entries) (fates : List Fate) :
    Selected (history ++ fates) dialogId entries :=
  fun entry hentry ↦ ⟨List.mem_append_left _ (h entry hentry).1, (h entry hentry).2⟩

/-- What is reported was selected. -/
structure Reports (history : List Fate) (notices : List Notice)
    (groups : List (ℤ × List CachedMessage)) : Prop where
  groups : ∀ group ∈ groups, Selected history group.1 group.2
  notices : ∀ notice ∈ notices, Selected history notice.dialogId notice.entries

/-- What holds in every state of a run. -/
structure Watcher.Sound (cfg : Setup) (w : Watcher) : Prop where
  size : w.cache.size ≤ cfg.cacheSize
  ledger : Ledger cfg w.cache w.history
  reports : Reports w.history w.notices w.handling.groups

namespace Watcher.Sound

variable {cfg : Setup} {w w' : Watcher}

theorem notify (hsize : w.cache.size ≤ cfg.cacheSize) (hledger : Ledger cfg w.cache w.history)
    {title : String} {dialogId : ℤ} {entries : List CachedMessage}
    {rest : List (ℤ × List CachedMessage)}
    (hreports : Reports w.history w.notices ((dialogId, entries) :: rest)) :
    Sound cfg (w.notify cfg title dialogId entries rest) := by
  refine ⟨hsize, hledger, ?_, ?_⟩
  · exact fun group hgroup ↦ hreports.groups group (List.mem_cons_of_mem _ hgroup)
  · intro notice hnotice
    rcases List.mem_append.mp hnotice with hold | hnew
    · exact hreports.notices notice hold
    · rw [List.mem_singleton.mp hnew]
      exact hreports.groups (dialogId, entries) List.mem_cons_self

theorem proceed (hsize : w.cache.size ≤ cfg.cacheSize) (hledger : Ledger cfg w.cache w.history)
    {groups : List (ℤ × List CachedMessage)} (hreports : Reports w.history w.notices groups) :
    Sound cfg (w.proceed cfg groups) := by
  cases groups with
  | nil => exact ⟨hsize, hledger, hreports⟩
  | cons group rest =>
    rw [Watcher.proceed]
    cases w.titles.get? group.1 with
    | none => exact ⟨hsize, hledger, hreports⟩
    | some title => exact notify hsize hledger hreports

theorem remember (h : Sound cfg w) (ev : OutgoingEvent) : Sound cfg (w.remember cfg ev) := by
  rw [Watcher.remember]
  split_ifs with hself
  · exact h
  · have hremember : Ledger cfg (w.cache.set ev.cached.key ev.cached)
        (w.history ++ [.remembered ev.cached]) := h.ledger.remember hself
    have hledger := hremember.evict ((w.cache.set ev.cached.key ev.cached).size - cfg.cacheSize)
    rw [List.append_assoc] at hledger
    refine ⟨?_, hledger, ?_, ?_⟩
    · show (OrderedDict.popFirst^[_] _).size ≤ _
      rw [OrderedDict.size, OrderedDict.items_iterate_popFirst, List.length_drop]
      show (w.cache.set _ _).size - ((w.cache.set _ _).size - cfg.cacheSize) ≤ cfg.cacheSize
      omega
    · exact fun group hgroup ↦ (h.reports.groups group hgroup).append _
    · exact fun notice hnotice ↦ (h.reports.notices notice hnotice).append _

theorem handleDeleted (h : Sound cfg w) (ev : MessagesDeletedEvent) :
    Sound cfg (w.handleDeleted cfg ev) := by
  refine proceed ?_ (h.ledger.select ev) ⟨?_, ?_⟩
  · show (matchDeleted w.cache ev).2.items.length ≤ _
    rw [matchDeleted, items_popAll]
    exact (List.length_filter_le _ _).trans h.size
  · intro group hgroup entry hentry
    obtain ⟨hmem, hdialog⟩ := of_mem_byDialog hgroup hentry
    exact ⟨List.mem_append_right _ (List.mem_map_of_mem hmem), hdialog⟩
  · exact fun notice hnotice ↦ (h.reports.notices notice hnotice).append _

theorem step (h : Sound cfg w) {event : Event} (hstep : watcher cfg w event = some w') :
    Sound cfg w' := by
  cases event with
  | outgoing ev =>
    obtain rfl := Option.some.inj hstep
    exact h.remember ev
  | deleted ev =>
    simp only [watcher] at hstep
    split at hstep
    · obtain rfl := Option.some.inj hstep
      exact h.handleDeleted ev
    · cases hstep
  | titled answer =>
    simp only [watcher] at hstep
    split at hstep
    · rename_i heq
      have hreports := h.reports
      rw [heq] at hreports
      obtain rfl := Option.some.inj hstep
      rw [Watcher.titled]
      dsimp only
      split
      · apply notify
        · exact h.size
        · exact h.ledger
        · exact hreports
      · refine ⟨h.size, h.ledger, ?_, hreports.notices⟩
        exact fun group hgroup ↦ absurd hgroup List.not_mem_nil
    · cases hstep
  | sent returned =>
    simp only [watcher] at hstep
    split at hstep
    · rename_i heq
      have hreports := h.reports
      rw [heq] at hreports
      obtain rfl := Option.some.inj hstep
      apply proceed
      · exact h.size
      · exact h.ledger
      · exact hreports
    · cases hstep

theorem run (hrun : (watcher cfg).Runs Machine.anyEvent {} w) : Sound cfg w := by
  refine hrun.preserves (fun w w' event h _ hstep ↦ h.step hstep) ?_
  refine ⟨Nat.zero_le _, .empty cfg, ?_, ?_⟩
  · exact fun group hgroup ↦ absurd hgroup List.not_mem_nil
  · exact fun notice hnotice ↦ absurd hnotice List.not_mem_nil

end Watcher.Sound

/-! ## How a message leaves the cache -/

namespace Watcher

variable {cfg : Setup} {w w' : Watcher}

/-- Reporting leaves the cache and its history alone. -/
theorem proceed_eq (cfg : Setup) (w : Watcher) (groups : List (ℤ × List CachedMessage)) :
    (w.proceed cfg groups).cache = w.cache ∧ (w.proceed cfg groups).history = w.history := by
  cases groups with
  | nil => exact ⟨rfl, rfl⟩
  | cons group rest =>
    rw [proceed]
    cases w.titles.get? group.1 with
    | none => exact ⟨rfl, rfl⟩
    | some title => exact ⟨rfl, rfl⟩

theorem cache_handleDeleted (cfg : Setup) (w : Watcher) (ev : MessagesDeletedEvent) :
    (w.handleDeleted cfg ev).cache = (matchDeleted w.cache ev).2 := (proceed_eq cfg _ _).1

theorem history_handleDeleted (cfg : Setup) (w : Watcher) (ev : MessagesDeletedEvent) :
    (w.handleDeleted cfg ev).history =
      w.history ++ (matchDeleted w.cache ev).1.map .selected := (proceed_eq cfg _ _).2

/-- What a new message evicts is the oldest, and the cache was full. -/
theorem oldest_of_evicted (hsize : w.cache.size ≤ cfg.cacheSize) {ev : OutgoingEvent}
    {entry : CachedMessage} (hentry : Cached w.cache entry)
    (hleft : entry.key ∉ (w.remember cfg ev).cache.keys) :
    cfg.cacheSize < (w.cache.set ev.cached.key ev.cached).size ∧
      w.cache.items.head? = some (entry.key, entry) := by
  have hkey : entry.key ∈ w.cache.keys := List.mem_map_of_mem hentry
  rw [remember] at hleft
  split_ifs at hleft with hself
  · exact absurd hkey hleft
  · simp only [OrderedDict.keys, OrderedDict.items_iterate_popFirst] at hleft
    by_cases hnew : ev.cached.key ∈ w.cache.keys
    · -- a key that is there already takes no room
      have hkeys : (w.cache.set ev.cached.key ev.cached).items.map Prod.fst = w.cache.keys := by
        rw [OrderedDict.set, dif_pos hnew]
        exact OrderedDict.map_fst_replace _ _ _
      have hlength := congrArg List.length hkeys
      rw [OrderedDict.keys, List.length_map, List.length_map] at hlength
      have hzero : (w.cache.set ev.cached.key ev.cached).size - cfg.cacheSize = 0 := by
        rw [OrderedDict.size, hlength]
        exact Nat.sub_eq_zero_of_le hsize
      rw [hzero, List.drop_zero, hkeys] at hleft
      exact absurd hkey hleft
    · have hset := OrderedDict.size_set_new ev.cached (OrderedDict.get?_eq_none_iff.mpr hnew)
      rw [hset, OrderedDict.items_set_new ev.cached hnew] at hleft
      rw [hset]
      rcases hsize.lt_or_eq with hlt | heq
      · have hzero : w.cache.size + 1 - cfg.cacheSize = 0 := by omega
        rw [hzero, List.drop_zero, List.map_append] at hleft
        exact absurd (List.mem_append_left _ hkey) hleft
      · have hone : w.cache.size + 1 - cfg.cacheSize = 1 := by omega
        rw [hone] at hleft
        refine ⟨by omega, ?_⟩
        rw [Cached] at hentry
        cases hitems : w.cache.items with
        | nil =>
          rw [hitems] at hentry
          cases hentry
        | cons e rest =>
          rw [hitems] at hentry hleft
          rcases List.mem_cons.mp hentry with rfl | hrest
          · rfl
          · refine absurd ?_ hleft
            exact List.mem_map_of_mem (f := Prod.fst) (List.mem_append_left _ hrest)

/-- A message that leaves the cache is one that the event is about, or the oldest one when a
new one does not fit. -/
theorem left_of_step (h : Sound cfg w) {event : Event} (hstep : watcher cfg w event = some w')
    {entry : CachedMessage} (hentry : Cached w.cache entry) (hleft : entry.key ∉ w'.cache.keys) :
    (∃ ev, event = .deleted ev ∧ .selected entry ∈ w'.history.drop w.history.length) ∨
      ∃ ev, event = .outgoing ev ∧ cfg.cacheSize < (w.cache.set ev.cached.key ev.cached).size ∧
        w.cache.items.head? = some (entry.key, entry) := by
  have hkey : entry.key ∈ w.cache.keys := List.mem_map_of_mem hentry
  cases event with
  | outgoing ev =>
    obtain rfl := Option.some.inj hstep
    exact .inr ⟨ev, rfl, oldest_of_evicted h.size hentry hleft⟩
  | deleted ev =>
    simp only [watcher] at hstep
    split at hstep
    · obtain rfl := Option.some.inj hstep
      refine .inl ⟨ev, rfl, ?_⟩
      rw [history_handleDeleted, List.drop_left]
      apply List.mem_map_of_mem
      rw [cache_handleDeleted, matchDeleted, OrderedDict.keys, items_popAll] at hleft
      rw [matchDeleted, mem_popAll]
      refine ⟨entry.key, ?_, OrderedDict.get?_eq_some_iff.mpr hentry⟩
      by_contra hnot
      refine hleft (List.mem_map_of_mem (f := Prod.fst) (List.mem_filter.mpr ⟨hentry, ?_⟩))
      exact decide_eq_true hnot
    · cases hstep
  | titled answer =>
    simp only [watcher] at hstep
    split at hstep
    · obtain rfl := Option.some.inj hstep
      rw [titled] at hleft
      dsimp only at hleft
      split at hleft <;> exact absurd hkey hleft
    · cases hstep
  | sent returned =>
    simp only [watcher] at hstep
    split at hstep
    · obtain rfl := Option.some.inj hstep
      rw [sent, (proceed_eq cfg _ _).1] at hleft
      exact absurd hkey hleft
    · cases hstep

end Watcher

/-- In every run a message that is selected for a report was remembered since a message with
its key was last selected, and is not one of Saved Messages; what is reported was selected; an
event selects exactly the messages of the cache that have one of its ids and are of its chat,
or, if it names none, of no channel or megagroup; and a message leaves the cache only when it
is selected, or as the oldest when a new one does not fit. -/
theorem deletion_matching (cfg : Setup) {w : Watcher}
    (hrun : (watcher cfg).Runs Machine.anyEvent {} w) :
    (∀ before entry after, w.history = before ++ .selected entry :: after →
        entry.dialogId ≠ cfg.selfId ∧ Latest before entry) ∧
      (∀ key, timesSelected key w.history ≤ timesRemembered key w.history) ∧
      (∀ notice ∈ w.notices, ∀ entry ∈ notice.entries,
        .selected entry ∈ w.history ∧ entry.dialogId ≠ cfg.selfId) ∧
      (∀ ev w', watcher cfg w (.deleted ev) = some w' → ∃ hits : List CachedMessage,
        hits.Nodup ∧ w'.history = w.history ++ hits.map .selected ∧ ∀ entry, entry ∈ hits ↔
          Cached w.cache entry ∧ entry.messageId ∈ ev.messageIds ∧ Covers ev entry.dialogId) ∧
      ∀ event w' entry, watcher cfg w event = some w' → Cached w.cache entry →
        entry.key ∉ w'.cache.keys →
        (∃ ev, event = .deleted ev ∧ .selected entry ∈ w'.history.drop w.history.length) ∨
          ∃ ev, event = .outgoing ev ∧ cfg.cacheSize < (w.cache.set ev.cached.key ev.cached).size ∧
            w.cache.items.head? = some (entry.key, entry) := by
  have h := Watcher.Sound.run hrun
  refine ⟨?_, ?_, ?_, ?_, ?_⟩
  · intro before entry after heq
    refine ⟨h.ledger.own (.selected entry) ?_, h.ledger.due before _ after heq entry rfl⟩
    rw [heq]
    exact List.mem_append_right _ List.mem_cons_self
  · intro key
    exact (Nat.le_add_right _ _).trans (h.ledger.count key)
  · intro notice hnotice entry hentry
    have hselected := (h.reports.notices notice hnotice entry hentry).1
    exact ⟨hselected, h.ledger.own _ hselected⟩
  · intro ev w' hstep
    simp only [watcher] at hstep
    split at hstep
    · obtain rfl := Option.some.inj hstep
      refine ⟨_, ?_, Watcher.history_handleDeleted cfg w ev, ?_⟩
      · exact List.Nodup.of_map _ (Watcher.nodup_popAll h.ledger.keyed)
      · exact fun entry ↦ Watcher.mem_matchDeleted h.ledger.keyed
    · cases hstep
  · intro event w' entry hstep hentry hleft
    exact Watcher.left_of_step h hstep hentry hleft

/-- An own message. -/
def own (dialogId id : ℤ) : Event :=
  .outgoing ⟨dialogId, { id := id, dialogId := dialogId, senderId := 9, out := true, date := "" }⟩

/-- Message 5 of a private chat, of a channel and of Saved Messages; an event without a chat
selects the first of them only. -/
theorem deletion_matching_of_private :
    ∃ w, (watcher ⟨10, 9, id⟩).Runs Machine.anyEvent {} w ∧
      w.notices.map Notice.entries = [[⟨7, 5, none, ""⟩]] ∧
      ∀ notice ∈ w.notices, ∀ entry ∈ notice.entries,
        .selected entry ∈ w.history ∧ entry.dialogId ≠ 9 := by
  have hexec : (((watcher ⟨10, 9, id⟩).guarded fun _ _ ↦ True).exec {}
      [own 7 5, own (-1000000000008) 5, own 9 5, .deleted ⟨none, [5, 5]⟩, .titled (some "Ann"),
        .sent true]).any
      (fun w ↦ w.notices.map Notice.entries = [[⟨7, 5, none, ""⟩]]) = true := by
    decide +kernel
  obtain ⟨w, hrun, hnotices⟩ := Machine.exists_run_of_exec hexec
  exact ⟨w, hrun, hnotices, (deletion_matching ⟨10, 9, id⟩ hrun).2.2.1⟩

end TgMessenger.Watch
