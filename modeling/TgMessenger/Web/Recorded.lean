import TgMessenger.Web.Bubbles
import Mathlib.Data.List.GetD
import Mathlib.Data.List.Perm.Subperm

/-!
# What a stream leaves out

The bucket of a client has what was recorded last for its page, and the stream of the page reads
that bucket: no other page has the id of the client, as long as every page has an id of its own, and
the table drops no client whose stream runs.  So a stream leaves out the echoes of what its own page
has recorded, and nothing else.
-/

namespace TgMessenger.Web.Bubbles

/-! ## One bucket -/

/-- A list without a key, and what is at its front. -/
theorem take_erase_take {α : Type*} [BEq α] [LawfulBEq α] (l : List α) (a : α) (n : ℕ) :
    ((l.take (n + 1)).erase a).take n = (l.erase a).take n := by
  induction l generalizing n with
  | nil => rfl
  | cons b l ih =>
    rw [List.take_succ_cons, List.erase_cons, List.erase_cons]
    split_ifs with hb
    · rw [List.take_take, Nat.min_self]
    · cases n with
      | zero => rfl
      | succ n => rw [List.take_succ_cons, List.take_succ_cons, ih]

/-- The keys of a bucket are what was recorded last. -/
theorem keys_boundedRemember {K : Type} [DecidableEq K] [BEq K] [LawfulBEq K]
    {d : OrderedDict K Bool} {l : List K} (k : K)
    (h : d.keys = (l.take defaultRememberCap).reverse) :
    (boundedRemember k d).keys = ((k :: l.erase k).take defaultRememberCap).reverse := by
  have hnodup : (l.take defaultRememberCap).Nodup := by
    rw [← List.nodup_reverse, ← h]
    exact d.nodup
  have hset : ((d.set k true).moveToEnd k).keys =
      (k :: (l.take defaultRememberCap).erase k).reverse := by
    have hrest : (d.erase k).keys = ((l.take defaultRememberCap).erase k).reverse := by
      rw [hnodup.erase_eq_filter, ← List.filter_reverse, ← h, OrderedDict.keys,
        OrderedDict.items_erase, OrderedDict.keys, List.filter_map]
      refine congrArg (List.map Prod.fst) (List.filter_congr fun e _ ↦ ?_)
      simp [bne, beq_eq_decide]
    rw [OrderedDict.keys, OrderedDict.items_moveToEnd_set, List.map_append, List.reverse_cons]
    exact congrArg (· ++ [k]) hrest
  have hsize : ((d.set k true).moveToEnd k).size = ((d.set k true).moveToEnd k).keys.length :=
    (List.length_map _).symm
  rw [boundedRemember, OrderedDict.keys, OrderedDict.items_iterate_popFirst, List.map_drop, hsize]
  show List.drop _ ((d.set k true).moveToEnd k).keys = _
  rw [← List.reverse_inj, ← List.take_reverse, hset, List.reverse_reverse, List.reverse_reverse]
  exact congrArg (k :: ·) (take_erase_take l k 199)

namespace SentIds

/-- The number of the bucket of a client, when the table has one. -/
def bucketOf? (clientId : List Char) (s : SentIds) : Option ℕ :=
  s.byClient.get? (boundedClientId clientId)

/-- What is in a bucket, the oldest first. -/
def keys (n : ℕ) (s : SentIds) : List Key := (s.buckets.getD n .empty).keys

/-- The table has the buckets of some of the clients, each its own, and a hundred at most. -/
structure Sound (clients : List (List Char)) (s : SentIds) : Prop where
  clients : ∀ k n, s.byClient.get? k = some n → k ∈ clients
  lt : ∀ k n, s.byClient.get? k = some n → n < s.buckets.length
  apart : ∀ k k' n, s.byClient.get? k = some n → s.byClient.get? k' = some n → k = k'
  few : s.byClient.size ≤ 100

/-- The client that goes when a bucket is taken: the oldest, when the table is full and does not
have the client whose bucket it is. -/
def dropped (clientId : List Char) (s : SentIds) : Option (List Char) :=
  if s.has clientId ∨ s.byClient.size < 100 then none else s.byClient.keys.head?

variable {s : SentIds} {clients : List (List Char)} {clientId : List Char} {k : Key} {n : ℕ}

theorem contains_iff : s.contains n k = true ↔ k ∈ s.keys n := OrderedDict.contains_iff_mem_keys

theorem has_iff : s.has clientId = true ↔ ∃ n, s.bucketOf? clientId = some n :=
  Option.isSome_iff_exists

theorem has_eq_false_iff : s.has clientId = false ↔ s.bucketOf? clientId = none :=
  Option.isSome_eq_false_iff.trans Option.isNone_iff_eq_none

theorem Sound.mono {clients' : List (List Char)} (h : s.Sound clients) (hsub : clients ⊆ clients') :
    s.Sound clients' := { h with clients := fun k n hn ↦ hsub (h.clients k n hn) }

/-- The bucket of a client that the table has. -/
theorem sentBucket_of_some (h : s.bucketOf? clientId = some n) :
    s.sentBucket clientId = (n, s.touch (boundedClientId clientId)) := by
  rw [sentBucket, ← bucketOf?, h]

/-- The bucket of a client that the table does not have is new. -/
theorem sentBucket_of_none (h : s.bucketOf? clientId = none) :
    s.sentBucket clientId = (s.buckets.length, touch (boundedClientId clientId)
      { byClient := s.byClient.set (boundedClientId clientId) s.buckets.length
        buckets := s.buckets ++ [.empty] }) := by
  rw [sentBucket, ← bucketOf?, h]

theorem dropped_of_some (h : s.bucketOf? clientId = some n) : s.dropped clientId = none :=
  if_pos (.inl (has_iff.mpr ⟨n, h⟩))

theorem dropped_of_lt (clientId : List Char) (h : s.byClient.size < 100) :
    s.dropped clientId = none := if_pos (.inr h)

theorem dropped_of_full (hnone : s.bucketOf? clientId = none) (hfull : s.byClient.size = 100) :
    s.dropped clientId = s.byClient.keys.head? := by
  refine if_neg ?_
  rw [has_eq_false_iff.mpr hnone, hfull]
  exact not_or.mpr ⟨Bool.false_ne_true, Nat.lt_irrefl _⟩

/-- The client whose bucket is taken does not go. -/
theorem dropped_ne_self : s.dropped clientId ≠ some (boundedClientId clientId) := by
  rw [dropped]
  split_ifs with hkeeps
  · exact nofun
  · intro hhead
    have hmem := List.mem_of_head? hhead
    rw [not_or, Bool.not_eq_true, has, Bool.eq_false_iff, Ne,
      OrderedDict.contains_iff_mem_keys] at hkeeps
    exact hkeeps.1 hmem

/-- A table that is small enough drops no client. -/
theorem get?_touch (hsize : s.byClient.size ≤ 100) (clientId k : List Char) :
    (s.touch clientId).byClient.get? k = s.byClient.get? k := by
  rw [touch, OrderedDict.size_moveToEnd, Nat.sub_eq_zero_of_le hsize]
  exact s.byClient.get?_moveToEnd clientId k

/-- What the table has after a bucket is taken. -/
theorem get?_sentBucket (h : s.Sound clients) (clientId k : List Char) :
    (s.sentBucket clientId).2.byClient.get? k =
      if s.dropped clientId = some k then none
      else if k = boundedClientId clientId then some (s.sentBucket clientId).1
      else s.byClient.get? k := by
  cases hget : s.bucketOf? clientId with
  | some n =>
    rw [sentBucket_of_some hget, dropped_of_some hget, if_neg nofun, get?_touch h.few]
    split_ifs with hk
    · rw [hk]
      exact hget
    · rfl
  | none =>
    have hnew : boundedClientId clientId ∉ s.byClient.keys := OrderedDict.get?_eq_none_iff.mp hget
    have hset : (s.byClient.set (boundedClientId clientId) s.buckets.length).size =
        s.byClient.size + 1 := OrderedDict.size_set_new _ hget
    rw [sentBucket_of_none hget]
    by_cases hsize : s.byClient.size < 100
    · rw [dropped_of_lt clientId hsize, if_neg nofun, get?_touch (hset.trans_le hsize)]
      exact OrderedDict.get?_set ..
    · have hfull : s.byClient.size = 100 := le_antisymm h.few (not_lt.mp hsize)
      rw [dropped_of_full hget hfull, touch, OrderedDict.size_moveToEnd, hset, hfull]
      cases hitems : s.byClient.items with
      | nil =>
        rw [OrderedDict.size, hitems] at hfull
        cases hfull
      | cons e l =>
        have hmoved : ((s.byClient.set (boundedClientId clientId) s.buckets.length).moveToEnd
            (boundedClientId clientId)).items =
              e :: (l ++ [(boundedClientId clientId, s.buckets.length)]) := by
          rw [OrderedDict.items_moveToEnd_set, OrderedDict.items_erase, hitems,
            List.filter_eq_self.mpr, List.cons_append]
          rintro e' he'
          refine decide_eq_true fun heq ↦ hnew ?_
          rw [← heq, OrderedDict.keys, hitems]
          exact List.mem_map_of_mem he'
        have hhead : s.byClient.keys.head? = some e.1 := by
          rw [OrderedDict.keys, hitems]
          rfl
        rw [hhead]
        refine (OrderedDict.get?_popFirst hmoved k).trans ?_
        rw [OrderedDict.get?_moveToEnd, OrderedDict.get?_set]
        simp only [Option.some_inj, eq_comm]

theorem size_touch_le (clientId : List Char) (s : SentIds) :
    (s.touch clientId).byClient.size ≤ 100 := by
  rw [touch, OrderedDict.size, OrderedDict.items_iterate_popFirst, List.length_drop]
  show (s.byClient.moveToEnd clientId).size - _ ≤ 100
  omega

/-- A new bucket is behind the others. -/
theorem length_buckets_le (clientId : List Char) (s : SentIds) :
    s.buckets.length ≤ (s.sentBucket clientId).2.buckets.length := by
  cases hget : s.bucketOf? clientId with
  | some n => rw [sentBucket_of_some hget]; rfl
  | none =>
    rw [sentBucket_of_none hget]
    show _ ≤ (s.buckets ++ [OrderedDict.empty]).length
    rw [List.length_append]
    exact Nat.le_succ _

theorem Sound.sentBucket (h : s.Sound clients) (hmem : boundedClientId clientId ∈ clients) :
    (s.sentBucket clientId).2.Sound clients := by
  have hcases : ∀ k n, (s.sentBucket clientId).2.byClient.get? k = some n →
      k = boundedClientId clientId ∧ n = (s.sentBucket clientId).1 ∨
        k ≠ boundedClientId clientId ∧ s.byClient.get? k = some n := by
    intro k n hn
    rw [get?_sentBucket h] at hn
    split_ifs at hn with hdropped hk
    · exact .inl ⟨hk, (Option.some.inj hn).symm⟩
    · exact .inr ⟨hk, hn⟩
  have hself : (s.sentBucket clientId).1 < (s.sentBucket clientId).2.buckets.length ∧
      ∀ k, k ≠ boundedClientId clientId →
        s.byClient.get? k ≠ some (s.sentBucket clientId).1 := by
    cases hget : s.bucketOf? clientId with
    | some n =>
      rw [sentBucket_of_some hget]
      exact ⟨h.lt _ n hget, fun k hk hn ↦ hk (h.apart _ _ n hn hget)⟩
    | none =>
      rw [sentBucket_of_none hget]
      refine ⟨?_, fun k _ hn ↦ absurd (h.lt k _ hn) (Nat.lt_irrefl _)⟩
      show s.buckets.length < (s.buckets ++ [OrderedDict.empty]).length
      rw [List.length_append]
      exact Nat.lt_succ_self _
  constructor
  case clients =>
    intro k n hn
    rcases hcases k n hn with ⟨rfl, -⟩ | ⟨-, hn⟩
    · exact hmem
    · exact h.clients k n hn
  case lt =>
    intro k n hn
    rcases hcases k n hn with ⟨-, rfl⟩ | ⟨-, hn⟩
    · exact hself.1
    · exact (h.lt k n hn).trans_le (length_buckets_le clientId s)
  case apart =>
    intro k₁ k₂ n hn₁ hn₂
    rcases hcases k₁ n hn₁ with ⟨rfl, rfl⟩ | ⟨hk₁, hn₁⟩
    · rcases hcases k₂ _ hn₂ with ⟨rfl, -⟩ | ⟨hk₂, hn₂⟩
      · rfl
      · exact absurd hn₂ (hself.2 k₂ hk₂)
    · rcases hcases k₂ n hn₂ with ⟨rfl, rfl⟩ | ⟨-, hn₂⟩
      · exact absurd hn₁ (hself.2 k₁ hk₁)
      · exact h.apart k₁ k₂ n hn₁ hn₂
  case few =>
    rw [SentIds.sentBucket]
    split
    · exact size_touch_le ..
    · exact size_touch_le ..

/-- A client whose bucket is taken has it. -/
theorem bucketOf?_sentBucket_self (h : s.Sound clients) (clientId : List Char) :
    (s.sentBucket clientId).2.bucketOf? clientId = some (s.sentBucket clientId).1 := by
  rw [bucketOf?, get?_sentBucket h, if_neg dropped_ne_self, if_pos rfl]

/-- Another client has what it had, if it does not go. -/
theorem bucketOf?_sentBucket_eq_some_iff {clientId' : List Char} (h : s.Sound clients)
    (hne : boundedClientId clientId' ≠ boundedClientId clientId) :
    (s.sentBucket clientId).2.bucketOf? clientId' = some n ↔
      s.dropped clientId ≠ some (boundedClientId clientId') ∧ s.bucketOf? clientId' = some n := by
  rw [bucketOf?, get?_sentBucket h, if_neg hne]
  split_ifs with hdropped
  · exact iff_of_false id fun hn ↦ hn.1 hdropped
  · exact (and_iff_right hdropped).symm

/-- A bucket that is there has what it had. -/
theorem keys_sentBucket (hn : n < s.buckets.length) (clientId : List Char) :
    (s.sentBucket clientId).2.keys n = s.keys n := by
  cases hget : s.bucketOf? clientId with
  | some m => rw [sentBucket_of_some hget]; rfl
  | none =>
    rw [sentBucket_of_none hget]
    show ((s.buckets ++ [OrderedDict.empty]).getD n .empty).keys = _
    rw [List.getD_append _ _ _ _ hn]
    rfl

/-- A new bucket has nothing. -/
theorem keys_sentBucket_of_none (h : s.bucketOf? clientId = none) :
    (s.sentBucket clientId).2.keys (s.sentBucket clientId).1 = [] := by
  rw [sentBucket_of_none h]
  show ((s.buckets ++ [OrderedDict.empty]).getD s.buckets.length .empty).keys = []
  rw [List.getD_append_right _ _ _ _ le_rfl, Nat.sub_self]
  rfl

theorem Sound.rememberSent (h : s.Sound clients) (n : ℕ) (k : Key) :
    (s.rememberSent n k).Sound clients where
  clients := h.clients
  lt k' n' hn' := (h.lt k' n' hn').trans_eq (List.length_modify ..).symm
  apart := h.apart
  few := h.few

/-- What is recorded is recorded in one bucket. -/
theorem keys_rememberSent_self {l : List Key} (hn : n < s.buckets.length)
    (hl : s.keys n = (l.take defaultRememberCap).reverse) :
    (s.rememberSent n k).keys n = ((k :: l.erase k).take defaultRememberCap).reverse := by
  refine .trans ?_ (keys_boundedRemember k hl)
  show ((s.buckets.modify n (boundedRemember k)).getD n .empty).keys = _
  simp [hn]

theorem keys_rememberSent_ne {n' : ℕ} (hne : n ≠ n') :
    (s.rememberSent n k).keys n' = s.keys n' := by
  show ((s.buckets.modify n (boundedRemember k)).getD n' .empty).keys = _
  rw [List.getD_eq_getElem?_getD, List.getElem?_modify_ne _ _ hne, ← List.getD_eq_getElem?_getD]
  rfl

end SentIds

/-! ## The buckets of the pages -/

namespace Page

/-- A page reads what was recorded for it. -/
structure Fed (sentIds : SentIds) (page : Page) : Prop where
  recorded : ∀ n, sentIds.bucketOf? page.clientId = some n →
    sentIds.keys n = (page.recorded.take defaultRememberCap).reverse
  stream : ∀ s ∈ page.stream, sentIds.bucketOf? page.clientId = some s.sentIds

/-- The client, what was recorded for it, and the bucket that the stream reads are the same. -/
structure Stays (page page' : Page) : Prop where
  clientId : page'.clientId = page.clientId
  recorded : page'.recorded = page.recorded
  stream : ∀ s' ∈ page'.stream, ∃ s ∈ page.stream, s'.sentIds = s.sentIds

variable {sentIds : SentIds} {page page' : Page}

theorem Fed.stays (h : page.Fed sentIds) (hstays : Stays page page') : page'.Fed sentIds := by
  constructor
  case recorded =>
    rw [hstays.clientId, hstays.recorded]
    exact h.recorded
  case stream =>
    intro s' hs'
    obtain ⟨s, hs, heq⟩ := hstays.stream s' hs'
    rw [hstays.clientId, heq]
    exact h.stream s hs

/-- A stream leaves out what its own page has recorded. -/
theorem Fed.skips_iff {s : Stream} {out : Bool} {m : Message} (h : page.Fed sentIds)
    (hs : page.stream = some s) : s.skips sentIds out m = true ↔
      out = true ∧ key m ∈ page.recorded.take defaultRememberCap := by
  have hkeys := h.recorded _ (h.stream s hs)
  rw [Stream.skips, Bool.and_eq_true, SentIds.contains_iff, hkeys, List.mem_reverse]

theorem Stays.of_stream {s' : Stream} (h : ∃ s ∈ page.stream, s'.sentIds = s.sentIds) :
    Stays page { page with stream := some s' } where
  clientId := rfl
  recorded := rfl
  stream := by
    rintro _ ⟨⟩
    exact h

@[simp] theorem clientId_take (known : Bool) : (page.take known).clientId = page.clientId := by
  cases known <;> rfl

@[simp] theorem stream_take (known : Bool) : (page.take known).stream = page.stream := by
  cases known <;> rfl

/-- The page whose bucket is taken reads it, also when it is new. -/
theorem Fed.take {clients : List (List Char)} (h : page.Fed sentIds)
    (htable : sentIds.Sound clients) :
    (page.take (sentIds.has page.clientId)).Fed (sentIds.sentBucket page.clientId).2 := by
  have hself := SentIds.bucketOf?_sentBucket_self htable page.clientId
  constructor
  case recorded =>
    intro n hn
    rw [clientId_take, hself] at hn
    obtain rfl := Option.some.inj hn
    cases hget : sentIds.bucketOf? page.clientId with
    | some m =>
      rw [SentIds.has_iff.mpr ⟨m, hget⟩, SentIds.keys_sentBucket]
      · rw [SentIds.sentBucket_of_some hget]
        exact h.recorded m hget
      · rw [SentIds.sentBucket_of_some hget]
        exact htable.lt _ m hget
    | none =>
      rw [SentIds.has_eq_false_iff.mpr hget, SentIds.keys_sentBucket_of_none hget]
      rfl
  case stream =>
    intro s hs
    rw [stream_take] at hs
    rw [clientId_take, hself, SentIds.sentBucket_of_some (h.stream s hs)]

/-- Another page reads what it has read, if it has a stream. -/
theorem Fed.leave {clients : List (List Char)} (h : page'.Fed sentIds)
    (htable : sentIds.Sound clients)
    (hne : boundedClientId page'.clientId ≠ boundedClientId page.clientId)
    (hretains : page'.stream.isSome = true →
      sentIds.dropped page.clientId ≠ some (boundedClientId page'.clientId)) :
    page'.Fed (sentIds.sentBucket page.clientId).2 := by
  constructor
  case recorded =>
    intro n hn
    obtain ⟨-, hn⟩ := (SentIds.bucketOf?_sentBucket_eq_some_iff htable hne).mp hn
    rw [SentIds.keys_sentBucket (htable.lt _ n hn)]
    exact h.recorded n hn
  case stream =>
    intro s hs
    exact (SentIds.bucketOf?_sentBucket_eq_some_iff htable hne).mpr
      ⟨hretains (Option.isSome_iff_exists.mpr ⟨s, hs⟩), h.stream s hs⟩

theorem stays_openDialog (dialogId : ℤ) : Stays page (page.openDialog dialogId) :=
  ⟨rfl, rfl, by rintro s ⟨⟩⟩

theorem stays_drop : Stays page page.drop := ⟨rfl, rfl, by rintro s ⟨⟩⟩

theorem stays_subscribe (hs : page.subscribe = some page') : Stays page page' := by
  obtain ⟨s, hstream, rfl⟩ := subscribe_eq hs
  exact .of_stream ⟨s, hstream, rfl⟩

theorem Stream.sentIds_setChannel (s : Stream) (out : Bool) (c : Channel) :
    (s.setChannel out c).sentIds = s.sentIds := by
  cases out <;> rfl

theorem stays_hear (m : Message) : Stays page (page.hear m) := by
  refine ⟨rfl, rfl, fun s' hs' ↦ ?_⟩
  obtain ⟨s, hstream, rfl⟩ := Option.map_eq_some_iff.mp hs'
  refine ⟨s, hstream, ?_⟩
  split_ifs
  · exact Stream.sentIds_setChannel ..
  · rfl

theorem stays_fetch {out : Bool} (hs : page.fetch out = some page') : Stays page page' := by
  obtain ⟨s, m, queue, hstream, -, rfl⟩ := fetch_eq hs
  exact .of_stream ⟨s, hstream, Stream.sentIds_setChannel ..⟩

theorem Stream.sentIds_look (sentIds : SentIds) (out : Bool) (m : Message) (s : Stream) :
    (s.look sentIds out m).sentIds = s.sentIds := by
  rw [Stream.look]
  split_ifs
  all_goals rfl

theorem stays_check {out : Bool} (hs : page.check sentIds out = some page') :
    Stays page page' := by
  obtain ⟨s, m, hstream, -, rfl⟩ := check_eq hs
  refine .of_stream ⟨s, hstream, ?_⟩
  rw [Stream.sentIds_look, Stream.sentIds_setChannel]

theorem stays_frame (hs : page.frame = some page') : Stays page page' := by
  obtain ⟨s, f, frames, hstream, -, rfl⟩ := frame_eq hs
  refine ⟨rfl, rfl, ?_⟩
  rintro _ ⟨⟩
  exact ⟨s, hstream, rfl⟩

theorem stays_self {histories : List History} {posts : List Post} {messages : List Bubble}
    {due : List Key} : Stays page { page with histories, posts, messages, due } :=
  ⟨rfl, rfl, fun s hs ↦ ⟨s, hs, rfl⟩⟩

theorem stays_history {i : ℕ} {items : List Message} (hs : page.history i items = some page') :
    Stays page page' := by
  obtain ⟨h, -, -, rfl⟩ := history_eq hs
  exact stays_self

theorem stays_swap {i : ℕ} (hs : page.swap i = some page') : Stays page page' := by
  obtain ⟨h, items, -, -, ⟨-, rfl⟩ | ⟨-, rfl⟩⟩ := swap_eq hs
  · exact stays_self
  · exact stays_self

theorem stays_dismiss {i : ℕ} (hs : page.dismiss i = some page') : Stays page page' := by
  obtain ⟨h, -, rfl⟩ := dismiss_eq hs
  exact stays_self

theorem stays_sent {i : ℕ} {m : Message} (hs : page.sent i m = some page') : Stays page page' := by
  obtain ⟨post, -, -, -, rfl⟩ := sent_eq hs
  exact stays_self

theorem stays_refused {i : ℕ} (hs : page.refused i = some page') : Stays page page' := by
  obtain ⟨post, -, -, rfl⟩ := refused_eq hs
  exact stays_self

theorem stays_answer {i : ℕ} (hs : page.answer i = some page') : Stays page page' := by
  obtain ⟨post, m, -, -, ⟨-, rfl⟩ | ⟨-, rfl⟩⟩ := answer_eq hs
  · exact stays_self
  · exact stays_self

end Page

namespace World

/-- The clients of the pages. -/
def clients (w : World) : List (List Char) := w.pages.map fun page ↦ boundedClientId page.clientId

/-- A page that is loaded has an id of its own. -/
def Admits (clientId : List Char) (w : World) : Prop := boundedClientId clientId ∉ w.clients

instance (clientId : List Char) (w : World) : Decidable (w.Admits clientId) :=
  inferInstanceAs (Decidable (¬ _))

/-- The client that goes when a page takes its bucket has no stream that reads the one it had. -/
def Retains (p : ℕ) (w : World) : Prop :=
  ∀ page ∈ w.pages[p]?, ∀ page' ∈ w.pages, page'.stream.isSome = true →
    w.sentIds.dropped page.clientId ≠ some (boundedClientId page'.clientId)

instance (p : ℕ) (w : World) : Decidable (w.Retains p) :=
  inferInstanceAs (Decidable (∀ page ∈ w.pages[p]?, ∀ page' ∈ w.pages, _ → _ ≠ _))

/-- The clients differ, and the table drops none whose stream runs. -/
def Links (w : World) : Event → Prop
  | .load clientId => w.Admits clientId
  | .connect p | .record p _ => w.Retains p
  | _ => True

instance (w : World) (e : Event) : Decidable (w.Links e) :=
  match e with
  | .load clientId => inferInstanceAs (Decidable (w.Admits clientId))
  | .connect p | .record p _ => inferInstanceAs (Decidable (w.Retains p))
  | .openDialog _ _ | .drop _ | .publish _ | .check _ _ | .swap _ _ | .dismiss _ _ | .subscribe _
  | .receive _ | .fetch _ _ | .frame _ | .history _ _ _ | .post _ _ | .sent _ _ _ | .refused _ _
  | .answer _ _ => .isTrue trivial

/-- The buckets are those of the pages. -/
structure Linked (w : World) : Prop where
  apart : w.clients.Nodup
  table : w.sentIds.Sound w.clients
  fed : ∀ page ∈ w.pages, page.Fed w.sentIds

variable {w w' : World} {p : ℕ} {f : Page → Option Page}

theorem clients_set {page : Page} (page' : Page) (hget : w.pages[p]? = some page)
    (hclient : page'.clientId = page.clientId) :
    clients { w with pages := w.pages.set p page' } = w.clients := by
  obtain ⟨hp, rfl⟩ := List.getElem?_eq_some_iff.mp hget
  show (w.pages.set p page').map _ = _
  have hp' : p < w.clients.length := hp.trans_eq (List.length_map _).symm
  have hself := List.set_getElem_self hp'
  rw [List.map_set, hclient]
  simpa only [clients, List.getElem_map] using hself

theorem Linked.onPage (h : w.Linked)
    (hf : ∀ page ∈ w.pages, ∀ page', f page = some page' → Page.Stays page page')
    (hs : w.onPage p f = some w') : w'.Linked := by
  obtain ⟨page, page', hget, hpage, rfl⟩ := onPage_eq hs
  have hmem := List.mem_of_getElem? hget
  have hstays := hf page hmem page' hpage
  have hclients := clients_set page' hget hstays.clientId
  constructor
  case apart => exact hclients ▸ h.apart
  case table => exact hclients ▸ h.table
  case fed =>
    intro page₁ hmem₁
    rcases List.mem_or_eq_of_mem_set hmem₁ with hmem₁ | rfl
    · exact h.fed page₁ hmem₁
    · exact (h.fed page hmem).stays hstays

theorem Linked.clientId_ne {page page' : Page} {j : ℕ} (h : w.Linked)
    (hget : w.pages[p]? = some page) (hget' : w.pages[j]? = some page') (hne : p ≠ j) :
    boundedClientId page'.clientId ≠ boundedClientId page.clientId := by
  intro hsame
  have hp : p < w.clients.length :=
    (List.getElem?_eq_some_iff.mp hget).1.trans_eq (List.length_map _).symm
  refine hne ((List.getElem?_inj hp h.apart).mp ?_)
  rw [clients, List.getElem?_map, List.getElem?_map, hget, hget']
  exact congrArg some hsame.symm

/-- The bucket of the client of a page is taken. -/
theorem Linked.takeBucket {page : Page} (h : w.Linked) (hget : w.pages[p]? = some page)
    (hretains : w.Retains p) (hs : w.takeBucket page p = some w') :
    w'.Linked ∧ w'.pages[p]? = some (page.take (w.sentIds.has page.clientId)) ∧
      w'.sentIds.bucketOf? page.clientId = some (w.sentIds.sentBucket page.clientId).1 := by
  obtain ⟨page₁, page', hget₁, hpage, rfl⟩ := onPage_eq hs
  obtain rfl : page = page₁ := Option.some.inj (hget.symm.trans hget₁)
  obtain rfl := Option.some.inj hpage
  have hp := (List.getElem?_eq_some_iff.mp hget).1
  have hclients := clients_set (page.take (w.sentIds.has page.clientId)) hget
    (Page.clientId_take _)
  have htable := h.table.sentBucket (List.mem_map_of_mem (List.mem_of_getElem? hget))
  refine ⟨⟨hclients ▸ h.apart, hclients ▸ htable, fun page₁ hmem₁ ↦ ?_⟩,
    List.getElem?_set_self hp, SentIds.bucketOf?_sentBucket_self h.table _⟩
  obtain ⟨j, hj⟩ := List.mem_iff_getElem?.mp hmem₁
  by_cases hpj : p = j
  · subst hpj
    obtain rfl := Option.some.inj ((List.getElem?_set_self hp).symm.trans hj)
    exact (h.fed page (List.mem_of_getElem? hget)).take h.table
  · have hj : w.pages[j]? = some page₁ := (List.getElem?_set_ne hpj).symm.trans hj
    have hmem := List.mem_of_getElem? hj
    exact (h.fed page₁ hmem).leave h.table (h.clientId_ne hget hj hpj)
      (hretains page hget page₁ hmem)

theorem Linked.connect (h : w.Linked) (hretains : w.Retains p)
    (hs : w.withBucket p (fun n w ↦ w.onPage p (·.connect n)) = some w') : w'.Linked := by
  obtain ⟨page, w₁, hget, htake, hs⟩ := withBucket_eq hs
  obtain ⟨h₁, hget₁, hbucket⟩ := h.takeBucket hget hretains htake
  obtain ⟨page₁, page', hget₁', hpage, rfl⟩ := onPage_eq hs
  obtain rfl := Option.some.inj (hget₁.symm.trans hget₁')
  have hmem := List.mem_of_getElem? hget₁
  obtain ⟨-, dialogId, -, rfl⟩ := Page.connect_eq hpage
  have hclients := clients_set { page.take (w.sentIds.has page.clientId) with
    stream := some { dialogId, sentIds := (w.sentIds.sentBucket page.clientId).1 } } hget₁ rfl
  refine ⟨hclients ▸ h₁.apart, hclients ▸ h₁.table, fun page₁ hmem₁ ↦ ?_⟩
  rcases List.mem_or_eq_of_mem_set hmem₁ with hmem₁ | rfl
  · exact h₁.fed page₁ hmem₁
  · refine ⟨(h₁.fed _ hmem).recorded, ?_⟩
    rintro _ ⟨⟩
    show w₁.sentIds.bucketOf? (page.take _).clientId = _
    rw [Page.clientId_take]
    exact hbucket

/-- What a handler records is in the bucket of its page. -/
theorem Linked.record {i : ℕ} {k : Key} (h : w.Linked) (hretains : w.Retains p)
    (hs : w.withBucket p (fun n w ↦ { w with sentIds := w.sentIds.rememberSent n k }.onPage p
      fun page ↦ some (page.record i k)) = some w') : w'.Linked := by
  obtain ⟨page, w₁, hget, htake, hs⟩ := withBucket_eq hs
  obtain ⟨h₁, hget₁, hbucket⟩ := h.takeBucket hget hretains htake
  obtain ⟨page₁, page', hget₁', hpage, rfl⟩ := onPage_eq hs
  obtain rfl := Option.some.inj (hget₁.symm.trans hget₁')
  obtain rfl := Option.some.inj hpage
  have hp := (List.getElem?_eq_some_iff.mp hget₁).1
  have hfed := h₁.fed _ (List.mem_of_getElem? hget₁)
  have hlt := h₁.table.lt _ _ hbucket
  have hclients := clients_set ((page.take (w.sentIds.has page.clientId)).record i k) hget₁ rfl
  refine ⟨hclients ▸ h₁.apart, hclients ▸ h₁.table.rememberSent _ _, fun page₁ hmem₁ ↦ ?_⟩
  obtain ⟨j, hj⟩ := List.mem_iff_getElem?.mp hmem₁
  by_cases hpj : p = j
  · subst hpj
    obtain rfl := Option.some.inj ((List.getElem?_set_self hp).symm.trans hj)
    refine ⟨fun n hn ↦ ?_, hfed.stream⟩
    have hn : w₁.sentIds.bucketOf? (page.take (w.sentIds.has page.clientId)).clientId =
      some n := hn
    have hrecorded := hfed.recorded n hn
    rw [Page.clientId_take, hbucket] at hn
    obtain rfl := Option.some.inj hn
    exact SentIds.keys_rememberSent_self hlt hrecorded
  · have hj : w₁.pages[j]? = some page₁ := (List.getElem?_set_ne hpj).symm.trans hj
    have hfed₁ := h₁.fed page₁ (List.mem_of_getElem? hj)
    refine ⟨fun n hn ↦ ?_, hfed₁.stream⟩
    have hn : w₁.sentIds.bucketOf? page₁.clientId = some n := hn
    have hother : (w.sentIds.sentBucket page.clientId).1 ≠ n := by
      rintro rfl
      have hne := h₁.clientId_ne hget₁ hj hpj
      rw [Page.clientId_take] at hne
      exact hne (h₁.table.apart _ _ _ hn hbucket)
    exact (SentIds.keys_rememberSent_ne hother).trans (hfed₁.recorded n hn)

theorem Linked.load {clientId : List Char} (h : w.Linked) (hnew : w.Admits clientId) :
    Linked { w with pages := w.pages ++ [{ clientId }] } := by
  have hclients : clients { w with pages := w.pages ++ [{ clientId }] } =
      w.clients ++ [boundedClientId clientId] := List.map_append
  constructor
  case apart =>
    rw [hclients, ← List.concat_eq_append]
    exact h.apart.concat hnew
  case table =>
    rw [hclients]
    exact h.table.mono (List.subset_append_left ..)
  case fed =>
    intro page hmem
    rcases List.mem_append.mp hmem with hmem | hmem
    · exact h.fed page hmem
    · rw [List.mem_singleton.mp hmem]
      refine ⟨fun n hn ↦ ?_, by rintro s ⟨⟩⟩
      exact absurd (h.table.clients _ n hn) hnew

theorem Linked.publish (h : w.Linked) (m : Message) : 
    Linked { w with published := w.published ++ [m], pages := w.pages.map (·.hear m) } := by
  have hclients : clients { w with pages := w.pages.map (·.hear m) } = w.clients := List.map_map
  refine ⟨hclients ▸ h.apart, hclients ▸ h.table, fun page' hmem' ↦ ?_⟩
  obtain ⟨page, hmem, rfl⟩ := List.mem_map.mp hmem'
  exact (h.fed page hmem).stays (Page.stays_hear m)

theorem Linked.append {m : Message} (h : w.Linked) (hs : w.append m = some w') : w'.Linked := by
  obtain ⟨-, rfl⟩ := append_eq hs
  exact { h with }

theorem Linked.step {e : Event} (h : w.Linked) (hlinks : w.Links e) (hs : step w e = some w') :
    w'.Linked := by
  cases e with
  | load clientId =>
    obtain rfl := Option.some.inj hs
    exact h.load hlinks
  | openDialog p dialogId =>
    refine h.onPage ?_ hs
    rintro page - _ ⟨⟩
    exact Page.stays_openDialog dialogId
  | connect p => exact h.connect hlinks hs
  | subscribe p => exact h.onPage (fun _ _ _ ↦ Page.stays_subscribe) hs
  | drop p =>
    refine h.onPage ?_ hs
    rintro page - _ ⟨⟩
    exact Page.stays_drop
  | receive m => exact h.append hs
  | publish m =>
    obtain ⟨-, hs⟩ := Option.ite_none_right_eq_some.mp hs
    obtain rfl := Option.some.inj hs
    exact h.publish m
  | fetch p out => exact h.onPage (fun _ _ _ ↦ Page.stays_fetch) hs
  | check p out => exact h.onPage (fun _ _ _ ↦ Page.stays_check) hs
  | frame p => exact h.onPage (fun _ _ _ ↦ Page.stays_frame) hs
  | history p i items =>
    obtain ⟨-, hs⟩ := Option.ite_none_right_eq_some.mp hs
    exact h.onPage (fun _ _ _ ↦ Page.stays_history) hs
  | swap p i => exact h.onPage (fun _ _ _ ↦ Page.stays_swap) hs
  | dismiss p i => exact h.onPage (fun _ _ _ ↦ Page.stays_dismiss) hs
  | post p dialogId =>
    refine h.onPage ?_ hs
    rintro page - _ ⟨⟩
    exact Page.stays_self
  | sent p i m =>
    obtain ⟨w₁, happend, hs⟩ := Option.bind_eq_some_iff.mp hs
    exact (h.append happend).onPage (fun _ _ _ ↦ Page.stays_sent) hs
  | refused p i => exact h.onPage (fun _ _ _ ↦ Page.stays_refused) hs
  | record p i =>
    obtain ⟨m, -, hs⟩ := Option.bind_eq_some_iff.mp hs
    exact h.record hlinks hs
  | answer p i => exact h.onPage (fun _ _ _ ↦ Page.stays_answer) hs

theorem linked_init : init.Linked := by
  constructor
  case apart => exact List.nodup_nil
  case table =>
    constructor
    case apart => rintro k k' n ⟨⟩
    case few => exact Nat.zero_le _
    all_goals rintro k n ⟨⟩
  case fed => rintro page ⟨⟩

/-- A message in the dialog 7. -/
def hello (id : ℤ) (out : Bool) : Message :=
  { id, dialogId := 7, senderId := 1, out, date := "", text := some "hello" }

end World

end TgMessenger.Web.Bubbles
