import TgMessenger.Core.Models
import TgMessenger.Data.Pages
import TgMessenger.Data.Table

/-!
# The server behind the store

The dialogs on the server and the pages the client reads from them: the newest `limit`
messages above `min_id`, or strictly older than `offset_id`, in chronological order.

A dialog grows by appending messages with larger ids than it ever had and shrinks by
deletions.  Outside channels and supergroups message ids belong to the account, so no
two such dialogs share one, also over time.  `Server` carries these facts.
-/

namespace TgMessenger.MessageStore

/-- The dialogs of an account. -/
structure Server where
  /-- The messages of each dialog, oldest first. -/
  live : ℤ → List Message
  /-- The largest id each dialog ever had. -/
  top : ℤ → ℤ
  /-- Every id ever given out in a dialog that is not a channel or supergroup. -/
  direct : List ℤ
  /-- Ids ascend. -/
  ascending : ∀ d, (live d).Pairwise fun a b ↦ a.id < b.id
  /-- Ids are positive and at most the largest ever given out. -/
  bounded : ∀ d, ∀ m ∈ live d, 0 < m.id ∧ m.id ≤ top d
  /-- A message carries its dialog. -/
  owned : ∀ d, ∀ m ∈ live d, m.dialogId = d
  /-- Ids outside channels are recorded as given out. -/
  recorded : ∀ d, isChannelOrMegagroupId d = false → ∀ m ∈ live d, m.id ∈ direct
  /-- Ids are unique over all dialogs that are not channels. -/
  unique : ∀ d d', isChannelOrMegagroupId d = false → isChannelOrMegagroupId d' = false →
    ∀ m ∈ live d, ∀ m' ∈ live d', m.id = m'.id → d = d'

/-- What happens on the server without the client. -/
inductive ServerEvent where
  | /-- A message arrives at the end of its dialog. -/
    append (m : Message)
  | /-- Messages of a dialog are deleted. -/
    delete (dialog : ℤ) (ids : List ℤ)

namespace Server

/-- A message can be appended: its id is larger than any its dialog ever had and, outside
channels, was never given out to another dialog. -/
def Fresh (s : Server) (m : Message) : Prop :=
  0 < m.id ∧ s.top m.dialogId < m.id ∧
    (isChannelOrMegagroupId m.dialogId = false → m.id ∉ s.direct)

instance (s : Server) (m : Message) : Decidable (s.Fresh m) :=
  inferInstanceAs (Decidable (_ ∧ _ ∧ (_ → _)))

theorem mem_update_append {live : ℤ → List Message} {m m' : Message} {d : ℤ} :
    m' ∈ Function.update live m.dialogId (live m.dialogId ++ [m]) d ↔
      m' ∈ live d ∨ (d = m.dialogId ∧ m' = m) := by
  by_cases h : d = m.dialogId
  · subst h
    simp
  · simp [h]

/-- The server after a fresh message arrived. -/
def append (s : Server) (m : Message) (h : s.Fresh m) : Server where
  live := Function.update s.live m.dialogId (s.live m.dialogId ++ [m])
  top := Function.update s.top m.dialogId m.id
  direct := if isChannelOrMegagroupId m.dialogId then s.direct else m.id :: s.direct
  ascending d := by
    by_cases hd : d = m.dialogId
    · subst hd
      rw [Function.update_self, List.pairwise_append]
      refine ⟨s.ascending _, List.pairwise_singleton _ _, fun a ha b hb ↦ ?_⟩
      rw [List.mem_singleton.mp hb]
      exact lt_of_le_of_lt (s.bounded _ a ha).2 h.2.1
    · rw [Function.update_of_ne hd]
      exact s.ascending d
  bounded d m' hm' := by
    rcases mem_update_append.mp hm' with hm' | ⟨rfl, rfl⟩
    · obtain ⟨hpos, hle⟩ := s.bounded d m' hm'
      by_cases hd : d = m.dialogId
      · subst hd
        rw [Function.update_self]
        exact ⟨hpos, (lt_of_le_of_lt hle h.2.1).le⟩
      · rw [Function.update_of_ne hd]
        exact ⟨hpos, hle⟩
    · rw [Function.update_self]
      exact ⟨h.1, le_refl _⟩
  owned d m' hm' := by
    rcases mem_update_append.mp hm' with hm' | ⟨rfl, rfl⟩
    · exact s.owned d m' hm'
    · rfl
  recorded d hd m' hm' := by
    rcases mem_update_append.mp hm' with hm' | ⟨rfl, rfl⟩
    · have := s.recorded d hd m' hm'
      split_ifs
      · exact this
      · exact List.mem_cons_of_mem _ this
    · simp [hd]
  unique d d' hd hd' a ha b hb hab := by
    rcases mem_update_append.mp ha with hal | ⟨rfl, rfl⟩
    · rcases mem_update_append.mp hb with hbl | ⟨rfl, rfl⟩
      · exact s.unique d d' hd hd' a hal b hbl hab
      · exact absurd (hab ▸ s.recorded d hd a hal) (h.2.2 hd')
    · rcases mem_update_append.mp hb with hbl | ⟨rfl, rfl⟩
      · exact absurd (hab ▸ s.recorded d' hd' b hbl) (h.2.2 hd)
      · rfl

/-- A server without dialogs. -/
def empty : Server where
  live _ := []
  top _ := 0
  direct := []
  ascending _ := List.Pairwise.nil
  bounded _ _ h := absurd h List.not_mem_nil
  owned _ _ h := absurd h List.not_mem_nil
  recorded _ _ _ h := absurd h List.not_mem_nil
  unique _ _ _ _ _ h := absurd h List.not_mem_nil

/-- The server after a message arrived that can be appended. -/
def receive (s : Server) (m : Message) : Server := if h : s.Fresh m then s.append m h else s

/-- The server after messages arrived in order. -/
def ofMessages (ms : List Message) : Server := ms.foldl receive empty

/-- A server with plain messages of one dialog. -/
def ofIds (dialogId : ℤ) (ids : List ℤ) : Server :=
  .ofMessages (ids.map fun id ↦ { id, dialogId, senderId := 1, out := false, date := "" })

theorem mem_update_delete {live : ℤ → List Message} {m : Message} {d d' : ℤ} {ids : List ℤ} :
    m ∈ Function.update live d' ((live d').filter fun m ↦ m.id ∉ ids) d ↔
      m ∈ live d ∧ ¬(d = d' ∧ m.id ∈ ids) := by
  by_cases h : d = d'
  · subst h
    simp
  · simp [h]

/-- The server after messages of a dialog were deleted. -/
def delete (s : Server) (d : ℤ) (ids : List ℤ) : Server where
  live := Function.update s.live d ((s.live d).filter fun m ↦ m.id ∉ ids)
  top := s.top
  direct := s.direct
  ascending d' := by
    by_cases hd : d' = d
    · subst hd
      rw [Function.update_self]
      exact (s.ascending _).filter _
    · rw [Function.update_of_ne hd]
      exact s.ascending d'
  bounded d' m hm := s.bounded d' m (mem_update_delete.mp hm).1
  owned d' m hm := s.owned d' m (mem_update_delete.mp hm).1
  recorded d' hd m hm := s.recorded d' hd m (mem_update_delete.mp hm).1
  unique d₁ d₂ h₁ h₂ a ha b hb :=
    s.unique d₁ d₂ h₁ h₂ a (mem_update_delete.mp ha).1 b (mem_update_delete.mp hb).1

theorem mem_live_delete {s : Server} {d d' : ℤ} {ids : List ℤ} {m : Message} :
    m ∈ (s.delete d' ids).live d ↔ m ∈ s.live d ∧ ¬(d = d' ∧ m.id ∈ ids) := mem_update_delete

/-- The server after an event, when the event is possible. -/
def apply (s : Server) : ServerEvent → Option Server
  | .append m => if h : s.Fresh m then some (s.append m h) else none
  | .delete d ids => some (s.delete d ids)

/-- What an event leaves of a dialog was there before or is new. -/
theorem mem_live_apply {s s' : Server} {e : ServerEvent} (h : s.apply e = some s') {d : ℤ}
    {m : Message} (hm : m ∈ s'.live d) :
    m ∈ s.live d ∨ (s.Fresh m ∧ d = m.dialogId) := by
  cases e with
  | append m' =>
    rw [apply] at h
    split_ifs at h with hf
    obtain rfl := Option.some.inj h
    rcases mem_update_append.mp hm with hm | ⟨rfl, rfl⟩
    · exact .inl hm
    · exact .inr ⟨hf, rfl⟩
  | delete d' ids =>
    obtain rfl := Option.some.inj h
    exact .inl (mem_update_delete.mp hm).1

/-- The ids given out are never taken back. -/
theorem top_le_apply {s s' : Server} {e : ServerEvent} (h : s.apply e = some s') (d : ℤ) :
    s.top d ≤ s'.top d := by
  cases e with
  | append m =>
    rw [apply] at h
    split_ifs at h with hf
    obtain rfl := Option.some.inj h
    by_cases hd : d = m.dialogId
    · subst hd
      simpa [append] using hf.2.1.le
    · simp [append, Function.update_of_ne hd]
  | delete d' ids =>
    obtain rfl := Option.some.inj h
    exact le_refl _

theorem direct_subset_apply {s s' : Server} {e : ServerEvent} (h : s.apply e = some s') :
    s.direct ⊆ s'.direct := by
  cases e with
  | append m =>
    rw [apply] at h
    split_ifs at h with hf
    obtain rfl := Option.some.inj h
    intro i hi
    simp only [append]
    split_ifs
    · exact hi
    · exact List.mem_cons_of_mem _ hi
  | delete d' ids =>
    obtain rfl := Option.some.inj h
    exact fun _ hi ↦ hi

/-- Message `id` of a dialog was given out and is no longer there. -/
def Deleted (s : Server) (d id : ℤ) : Prop :=
  id ≤ s.top d ∧ (isChannelOrMegagroupId d = false → id ∈ s.direct) ∧
    ∀ m ∈ s.live d, m.id ≠ id

/-- A deleted message never comes back. -/
theorem Deleted.apply {s s' : Server} {e : ServerEvent} (h : s.apply e = some s') {d id : ℤ}
    (hd : s.Deleted d id) : s'.Deleted d id := by
  refine ⟨hd.1.trans (top_le_apply h d), fun hc ↦ direct_subset_apply h (hd.2.1 hc),
    fun m hm ↦ ?_⟩
  rcases mem_live_apply h hm with hm | ⟨hf, rfl⟩
  · exact hd.2.2 m hm
  · exact ne_of_gt (lt_of_le_of_lt hd.1 hf.2.1)

/-! ## Pages -/

/-- `client.history_since`: the newest `limit` messages above `min_id`. -/
def historySince (s : Server) (peer minId : ℤ) (limit : ℕ) : List Message :=
  ((s.live peer).filter fun m ↦ minId < m.id).rtake limit

/-- `client.history`: the newest `limit` messages, strictly older than a non-zero
`offset_id`. -/
def history (s : Server) (peer : ℤ) (limit : ℕ) (offsetId : ℤ) : List Message :=
  ((s.live peer).filter fun m ↦ offsetId = 0 ∨ m.id < offsetId).rtake limit

variable {s : Server} {peer : ℤ} {limit : ℕ} {m : Message}

theorem historySince_sublist (s : Server) (peer minId : ℤ) (limit : ℕ) :
    (s.historySince peer minId limit).Sublist (s.live peer) :=
  (List.rtake_suffix _ _).sublist.trans List.filter_sublist

theorem history_sublist (s : Server) (peer : ℤ) (limit : ℕ) (offsetId : ℤ) :
    (s.history peer limit offsetId).Sublist (s.live peer) :=
  (List.rtake_suffix _ _).sublist.trans List.filter_sublist

/-- Every message is above id zero, so a page above zero is a page of the whole dialog. -/
theorem historySince_zero (s : Server) (peer : ℤ) (limit : ℕ) :
    s.historySince peer 0 limit = (s.live peer).rtake limit := by
  rw [historySince, List.filter_eq_self.mpr]
  exact fun m hm ↦ decide_eq_true (s.bounded peer m hm).1

/-- A full page above any id is the newest page. -/
theorem historySince_full {minId : ℤ}
    (h : limit ≤ (s.historySince peer minId limit).length) :
    s.historySince peer minId limit = (s.live peer).rtake limit := by
  refine List.rtake_filter_above (s.ascending peer) minId ?_
  rw [historySince, List.length_rtake] at h
  omega

end Server

end TgMessenger.MessageStore
