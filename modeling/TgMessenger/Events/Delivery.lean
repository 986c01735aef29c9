import TgMessenger.Events.Bus
import Mathlib.Data.List.Sublists

/-!
# What subscribers receive

Every subscriber receives a subsequence of what was published while it was registered; what it
misses was the oldest item of its own queue when that was full.  All of it is what it would
receive if it were alone on the bus.
-/

namespace TgMessenger.Events

open Asyncio

variable {T : Type} {maxsize : ℕ} {w w' : World T}

/-! ## One queue -/

namespace Subscription

/-- A publication goes to the end of the queue; the oldest item makes room for it. -/
theorem deliver_cases (hmax : 1 ≤ maxsize) (p : Publication T) {s : Subscription T}
    (hs : s.queue.items.length ≤ maxsize) (hreg : s.place.registered = true) :
    ∃ s', s.deliver maxsize p = some s' ∧ s'.received = s.received ∧ s'.heard = s.heard ∧
      s'.place.registered = true ∧ s'.queue.items.length ≤ maxsize ∧
      ((s.queue.isFull maxsize = false ∧ s'.queue.items = s.queue.items ++ [p]) ∨
        (s.queue.isFull maxsize = true ∧ ∃ oldest rest, s.queue.items = oldest :: rest ∧
          s'.queue.items = rest ++ [p])) := by
  have hput {queue : Queue Unit (Publication T)} (hfull : queue.isFull maxsize = false) :
      ∃ woken queue', queue.putNowait maxsize p = some (woken, queue') ∧
        queue'.items = queue.items ++ [p] ∧ queue'.items.length ≤ maxsize ∧
        (s.put woken queue').place.registered = true := by
    obtain ⟨woken, queue', hputs, hitems⟩ := Queue.exists_putNowait hfull p
    refine ⟨woken, queue', hputs, hitems, ?_, ?_⟩
    · rw [hitems, List.length_append, List.length_singleton]
      have := Queue.isFull_eq_false_iff.mp hfull
      omega
    · dsimp only [put]
      split
      · rfl
      · exact hreg
  cases hfull : s.queue.isFull maxsize with
  | false =>
    obtain ⟨woken, queue', hputs, hitems, hlen, hreg'⟩ := hput hfull
    refine ⟨s.put woken queue', ?_, rfl, rfl, hreg', hlen, .inl ⟨rfl, hitems⟩⟩
    rw [deliver, hfull, if_neg Bool.false_ne_true, hputs]
    rfl
  | true =>
    cases hget : s.queue.getNowait with
    | none =>
      rw [Queue.getNowait_eq_none_iff] at hget
      have hempty : s.queue.isFull maxsize = false := by
        rw [Queue.isFull_eq_false_iff, hget, List.length_nil]
        omega
      rw [hfull] at hempty
      cases hempty
    | some taken =>
      obtain ⟨oldest, queue⟩ := taken
      obtain ⟨hold, -⟩ := Queue.items_of_getNowait hget
      have hroom : queue.isFull maxsize = false := by
        rw [Queue.isFull_eq_false_iff]
        rw [hold, List.length_cons] at hs
        omega
      obtain ⟨woken, queue', hputs, hitems, hlen, hreg'⟩ := hput hroom
      refine ⟨s.put woken queue', ?_, rfl, rfl, hreg', hlen,
        .inr ⟨rfl, oldest, queue.items, hold, hitems⟩⟩
      rw [deliver, hfull, if_pos rfl, hget]
      dsimp only
      rw [hputs]
      rfl

/-- What is taken is received. -/
theorem take_items (s : Subscription T) :
    s.take.received ++ s.take.queue.items = s.received ++ s.queue.items ∧
      s.take.heard = s.heard ∧ s.take.place.registered = true ∧
      s.take.queue.items.length ≤ s.queue.items.length := by
  rw [take]
  cases hget : s.queue.getNowait with
  | none => exact ⟨rfl, rfl, rfl, le_refl _⟩
  | some taken =>
    obtain ⟨p, queue⟩ := taken
    obtain ⟨hitems, -⟩ := Queue.items_of_getNowait hget
    refine ⟨?_, rfl, rfl, ?_⟩
    · dsimp only
      rw [hitems, List.append_assoc, List.singleton_append]
    · rw [hitems]
      exact Nat.le_succ _

end Subscription

/-! ## All queues -/

/-- When no queue raises, every queue gets the publication, and no other. -/
theorem publishTo_apply {p : Publication T} {order : List ℕ} (hnodup : order.Nodup) (i : ℕ) :
    ∀ {sub : ℕ → Subscription T}, (∀ j ∈ order, ∃ s, (sub j).deliver maxsize p = some s) →
      if i ∈ order then (sub i).deliver maxsize p = some (World.publishTo maxsize p order sub i)
      else World.publishTo maxsize p order sub i = sub i := by
  induction order with
  | nil =>
    intro sub _
    rw [if_neg List.not_mem_nil]
    rfl
  | cons j order ih =>
    intro sub hdeliver
    obtain ⟨hj, hnodup⟩ := List.nodup_cons.mp hnodup
    obtain ⟨s, hs⟩ := hdeliver j List.mem_cons_self
    have hrest : ∀ k ∈ order, Function.update sub j s k = sub k := by
      intro k hk
      refine Function.update_of_ne ?_ ..
      rintro rfl
      exact hj hk
    have hih := @ih hnodup (Function.update sub j s) fun k hk ↦ by
      rw [hrest k hk]
      exact hdeliver k (List.mem_cons_of_mem _ hk)
    have hloop : World.publishTo maxsize p (j :: order) sub =
        World.publishTo maxsize p order (Function.update sub j s) := by
      rw [World.publishTo, hs]
    rw [hloop]
    by_cases hi : i = j
    · subst hi
      rw [if_pos List.mem_cons_self, hs]
      rw [if_neg hj, Function.update_self] at hih
      rw [hih]
    · by_cases hmem : i ∈ order
      · rw [if_pos (List.mem_cons_of_mem _ hmem)]
        rw [if_pos hmem, hrest i hmem] at hih
        exact hih
      · rw [if_neg (List.not_mem_cons_of_ne_of_not_mem hi hmem)]
        rw [if_neg hmem, Function.update_of_ne hi] at hih
        exact hih

/-- The queues are bounded, and the subscribers are those that are registered. -/
structure Sound (maxsize : ℕ) (w : World T) : Prop where
  nodup : w.subscribers.Nodup
  registered : ∀ i, i ∈ w.subscribers ↔ (w.sub i).place.registered = true
  bounded : ∀ i, (w.sub i).queue.items.length ≤ maxsize

/-- What an event does to a subscription. -/
inductive Change (maxsize : ℕ) (w : World T) (e : Event T) (i : ℕ) (s' : Subscription T) :
    Prop where
  | quiet
      (hitems : s'.received ++ s'.queue.items = (w.sub i).received ++ (w.sub i).queue.items)
      (hheard : s'.heard = (w.sub i).heard)
      (hlength : s'.queue.items.length ≤ (w.sub i).queue.items.length)
  | heard (event : T) (order : List ℕ) (he : e = .publish event order) (hi : i ∈ order)
      (hreg : (w.sub i).place.registered = true)
      (hreceived : s'.received = (w.sub i).received)
      (hheard : s'.heard = (w.sub i).heard ++ [(w.published.length, event)])
      (hlength : s'.queue.items.length ≤ maxsize)
      (hitems : ((w.sub i).queue.isFull maxsize = false ∧
          s'.queue.items = (w.sub i).queue.items ++ [(w.published.length, event)]) ∨
        ((w.sub i).queue.isFull maxsize = true ∧ ∃ oldest rest,
          (w.sub i).queue.items = oldest :: rest ∧
          s'.queue.items = rest ++ [(w.published.length, event)]))

/-- An event that takes a subscription to another, of one subscriber. -/
theorem Sound.set (h : Sound maxsize w) {i : ℕ} {s : Subscription T}
    (hreg : s.place.registered = (w.sub i).place.registered)
    (hlength : s.queue.items.length ≤ maxsize) : Sound maxsize (w.set i s) where
  nodup := h.nodup
  registered j := by
    dsimp only [World.set]
    rw [Function.update_apply]
    split_ifs with hj
    · rw [hj, hreg]
      exact h.registered i
    · exact h.registered j
  bounded j := by
    dsimp only [World.set]
    rw [Function.update_apply]
    split_ifs with hj
    · exact hlength
    · exact h.bounded j

/-- A subscriber leaves. -/
theorem Sound.unregister (h : Sound maxsize w) {i : ℕ} {s : Subscription T}
    (hlength : s.queue.items.length ≤ maxsize) : Sound maxsize (w.unregister i s) where
  nodup := h.nodup.filter _
  registered j := by
    dsimp only [World.unregister]
    rw [Function.update_apply, List.mem_filter]
    split_ifs with hj
    · simp [hj, Place.registered]
    · simp [hj, h.registered j]
  bounded j := by
    dsimp only [World.unregister]
    rw [Function.update_apply]
    split_ifs with hj
    · exact hlength
    · exact h.bounded j

/-- Every queue takes the publication. -/
theorem Sound.exists_deliver (hmax : 1 ≤ maxsize) (h : Sound maxsize w) {order : List ℕ}
    (hperm : order.Perm w.subscribers) (p : Publication T) :
    ∀ j ∈ order, ∃ s, (w.tell p j).deliver maxsize p = some s := by
  intro j hj
  have hmem := hperm.mem_iff.mp hj
  have htell : w.tell p j = { w.sub j with heard := (w.sub j).heard ++ [p] } := if_pos hmem
  obtain ⟨s, hs, -⟩ := Subscription.deliver_cases hmax p (s := w.tell p j)
    (by rw [htell]; exact h.bounded j) (by rw [htell]; exact (h.registered j).mp hmem)
  exact ⟨s, hs⟩

/-- A publication changes the subscriptions that are registered, and no other. -/
theorem Sound.publishTo (hmax : 1 ≤ maxsize) (h : Sound maxsize w) {order : List ℕ}
    (hperm : order.Perm w.subscribers) (event : T) (i : ℕ) :
    (i ∉ order ∧ World.publishTo maxsize (w.published.length, event) order
        (w.tell (w.published.length, event)) i = w.sub i) ∨
    (i ∈ order ∧
      (World.publishTo maxsize (w.published.length, event) order
        (w.tell (w.published.length, event)) i).place.registered = true ∧
      (World.publishTo maxsize (w.published.length, event) order
        (w.tell (w.published.length, event)) i).queue.items.length ≤ maxsize ∧
      Change maxsize w (.publish event order) i (World.publishTo maxsize
        (w.published.length, event) order (w.tell (w.published.length, event)) i)) := by
  set p : Publication T := (w.published.length, event) with hp
  have htell {j : ℕ} (hj : j ∈ order) :
      w.tell p j = { w.sub j with heard := (w.sub j).heard ++ [p] } :=
    if_pos (hperm.mem_iff.mp hj)
  have hreg {j : ℕ} (hj : j ∈ order) : (w.sub j).place.registered = true :=
    (h.registered j).mp (hperm.mem_iff.mp hj)
  have happly := publishTo_apply (hperm.nodup_iff.mpr h.nodup) i (h.exists_deliver hmax hperm p)
  by_cases hi : i ∈ order
  · rw [if_pos hi] at happly
    obtain ⟨s, hs, hreceived, hheard, hplace, hlength, hitems⟩ :=
      Subscription.deliver_cases hmax p (s := w.tell p i) (by rw [htell hi]; exact h.bounded i)
        (by rw [htell hi]; exact hreg hi)
    rw [happly] at hs
    rw [Option.some.inj hs]
    rw [htell hi] at hreceived hheard hitems
    exact .inr ⟨hi, hplace, hlength,
      .heard event order rfl hi (hreg hi) hreceived hheard hlength hitems⟩
  · rw [if_neg hi] at happly
    refine .inl ⟨hi, happly.trans (if_neg ?_)⟩
    rw [← hperm.mem_iff]
    exact hi

/-- Subscriber `i` moves, to `s`; the rest of the bus has no part in it. -/
structure World.Moves (maxsize : ℕ) (w : World T) (e : Event T) (w' : World T) (i : ℕ)
    (s : Subscription T) : Prop where
  items : s.received ++ s.queue.items = (w.sub i).received ++ (w.sub i).queue.items
  heard : s.heard = (w.sub i).heard
  length : s.queue.items.length ≤ (w.sub i).queue.items.length
  /-- It stays registered, or does not. -/
  moved : (s.place.registered = (w.sub i).place.registered ∧ w' = w.set i s ∧
      ∀ v : World T, v.sub i = w.sub i → v.step maxsize e = some (v.set i s)) ∨
    (w' = w.unregister i s ∧
      ∀ v : World T, v.sub i = w.sub i → v.step maxsize e = some (v.unregister i s))

theorem World.get_moves {i : ℕ} (hs : w.step maxsize (.get i) = some w') :
    ∃ s, w.Moves maxsize (.get i) w' i s := by
  obtain ⟨hitems, hheard, hreg, hlength⟩ := (w.sub i).take_items
  rw [World.step] at hs
  split at hs
  · next hplace =>
    cases hs
    refine ⟨_, hitems, hheard, hlength, .inl ⟨?_, rfl, ?_⟩⟩
    · rw [hreg, hplace]
      rfl
    · intro v hv
      rw [World.step, hv, hplace]
  · cases hs

theorem World.resume_moves {i : ℕ} (hs : w.step maxsize (.resume i) = some w') :
    ∃ s, w.Moves maxsize (.resume i) w' i s := by
  obtain ⟨hitems, hheard, hreg, hlength⟩ := (w.sub i).take_items
  rw [World.step] at hs
  split at hs
  · next hplace =>
    cases hs
    refine ⟨_, hitems, hheard, hlength, .inl ⟨?_, rfl, ?_⟩⟩
    · rw [hreg, hplace]
      rfl
    · intro v hv
      rw [World.step, hv, hplace]
  · next woken hplace =>
    cases hs
    refine ⟨_, ?_, ?_, ?_, .inr ⟨rfl, ?_⟩⟩
    · dsimp only
      rw [Queue.items_giveUp]
    · rfl
    · dsimp only
      rw [Queue.items_giveUp]
    · intro v hv
      rw [World.step, hv, hplace]
  · cases hs

theorem World.cancel_moves {i : ℕ} (hs : w.step maxsize (.cancel i) = some w') :
    ∃ s, w.Moves maxsize (.cancel i) w' i s := by
  rw [World.step] at hs
  split at hs
  · next hplace =>
    cases hs
    refine ⟨_, ?_, ?_, ?_, .inl ⟨?_, rfl, ?_⟩⟩
    · rfl
    · rfl
    · exact le_rfl
    · rw [hplace]
      rfl
    · intro v hv
      rw [World.step, hv, hplace]
  · next hplace =>
    cases hs
    refine ⟨_, ?_, ?_, ?_, .inl ⟨?_, rfl, ?_⟩⟩
    · rfl
    · rfl
    · exact le_rfl
    · rw [hplace]
      rfl
    · intro v hv
      rw [World.step, hv, hplace]
  · cases hs

theorem World.close_moves {i : ℕ} (hs : w.step maxsize (.close i) = some w') :
    ∃ s, w.Moves maxsize (.close i) w' i s := by
  rw [World.step] at hs
  split at hs
  · next hplace =>
    cases hs
    refine ⟨_, rfl, rfl, le_rfl, .inr ⟨rfl, ?_⟩⟩
    intro v hv
    rw [World.step, hv, hplace]
  · cases hs

/-- What an event does: a publication, the registration of a subscriber, or a move of one that is
registered. -/
theorem World.step_cases {e : Event T} (hs : w.step maxsize e = some w') :
    (∃ event order, e = .publish event order ∧ order.Perm w.subscribers ∧
      w' = { w with
        sub := publishTo maxsize (w.published.length, event) order
          (w.tell (w.published.length, event))
        published := w.published ++ [event] }) ∨
    (∃ i, e = .subscribe i ∧ (w.sub i).place = .idle ∧
      w' = { w.set i { w.sub i with place := .ready } with
        subscribers := i :: w.subscribers }) ∨
    ∃ i s, (e = .get i ∨ e = .resume i ∨ e = .cancel i ∨ e = .close i) ∧
      w.Moves maxsize e w' i s := by
  cases e with
  | publish event order =>
    rw [World.step] at hs
    split_ifs at hs with hperm
    cases hs
    exact .inl ⟨event, order, rfl, hperm, rfl⟩
  | subscribe i =>
    rw [World.step] at hs
    split at hs
    · next hplace =>
      cases hs
      exact .inr (.inl ⟨i, rfl, hplace, rfl⟩)
    · cases hs
  | get i =>
    obtain ⟨s, hmoves⟩ := get_moves hs
    exact .inr (.inr ⟨i, s, .inl rfl, hmoves⟩)
  | resume i =>
    obtain ⟨s, hmoves⟩ := resume_moves hs
    exact .inr (.inr ⟨i, s, .inr (.inl rfl), hmoves⟩)
  | cancel i =>
    obtain ⟨s, hmoves⟩ := cancel_moves hs
    exact .inr (.inr ⟨i, s, .inr (.inr (.inl rfl)), hmoves⟩)
  | close i =>
    obtain ⟨s, hmoves⟩ := close_moves hs
    exact .inr (.inr ⟨i, s, .inr (.inr (.inr rfl)), hmoves⟩)

theorem Sound.step (hmax : 1 ≤ maxsize) (h : Sound maxsize w) {e : Event T}
    (hs : w.step maxsize e = some w') :
    Sound maxsize w' ∧ ∀ i, Change maxsize w e i (w'.sub i) := by
  have hsame (i : ℕ) : Change maxsize w e i (w.sub i) := .quiet rfl rfl (le_refl _)
  have hset {i : ℕ} {s : Subscription T} (hi : Change maxsize w e i s) (j : ℕ) :
      Change maxsize w e j (Function.update w.sub i s j) := by
    rw [Function.update_apply]
    split_ifs with hj
    · rw [hj]
      exact hi
    · exact hsame j
  rcases World.step_cases hs with ⟨event, order, rfl, hperm, rfl⟩ | ⟨i, rfl, hplace, rfl⟩ |
    ⟨i, s, -, hitems, hheard, hlength, ⟨hreg, rfl, -⟩ | ⟨rfl, -⟩⟩
  · have hpublish := h.publishTo hmax hperm event
    refine ⟨⟨h.nodup, ?_, ?_⟩, ?_⟩
    · intro i
      obtain ⟨hi, heq⟩ | ⟨hi, hreg, -, -⟩ := hpublish i
      · dsimp only
        rw [heq]
        exact h.registered i
      · exact iff_of_true (hperm.mem_iff.mp hi) hreg
    · intro i
      obtain ⟨hi, heq⟩ | ⟨hi, -, hlength, -⟩ := hpublish i
      · dsimp only
        rw [heq]
        exact h.bounded i
      · exact hlength
    · intro i
      obtain ⟨hi, heq⟩ | ⟨hi, -, -, hchange⟩ := hpublish i
      · dsimp only
        rw [heq]
        exact hsame i
      · exact hchange
  · have hnew : i ∉ w.subscribers := by
      rw [h.registered, hplace]
      exact Bool.false_ne_true
    refine ⟨⟨List.nodup_cons.mpr ⟨hnew, h.nodup⟩, ?_, ?_⟩,
      hset (.quiet rfl rfl (le_refl _))⟩
    · intro j
      dsimp only [World.set]
      rw [Function.update_apply, List.mem_cons]
      split_ifs with hj
      · exact iff_of_true (.inl hj) rfl
      · rw [or_iff_right hj]
        exact h.registered j
    · intro j
      dsimp only [World.set]
      rw [Function.update_apply]
      split_ifs with hj
      · exact h.bounded i
      · exact h.bounded j
  · exact ⟨h.set hreg (hlength.trans (h.bounded i)), hset (.quiet hitems hheard hlength)⟩
  · exact ⟨h.unregister (hlength.trans (h.bounded i)), hset (.quiet hitems hheard hlength)⟩

/-! ## Runs -/

/-- What a subscriber has received or has still queued is a subsequence of what it has heard, and
that is numbered as it was published. -/
structure Told (w : World T) (i : ℕ) : Prop where
  sublist : ((w.sub i).received ++ (w.sub i).queue.items).Sublist (w.sub i).heard
  ascending : (w.sub i).heard.Pairwise fun p q ↦ p.1 < q.1
  published : ∀ p ∈ (w.sub i).heard, w.published[p.1]? = some p.2

/-- Only a publication is written down. -/
theorem published_step {e : Event T} (hs : w.step maxsize e = some w') :
    w.published <+: w'.published ∧
      ∀ event order, e = .publish event order → w'.published = w.published ++ [event] := by
  rcases World.step_cases hs with ⟨event, order, rfl, -, rfl⟩ | ⟨i, rfl, -, rfl⟩ |
    ⟨i, s, hmove, -, -, -, ⟨-, rfl, -⟩ | ⟨rfl, -⟩⟩
  · refine ⟨List.prefix_append .., ?_⟩
    rintro _ _ ⟨⟩
    rfl
  · exact ⟨List.prefix_rfl, by rintro _ _ ⟨⟩⟩
  · refine ⟨List.prefix_rfl, ?_⟩
    rintro event order rfl
    simp at hmove
  · refine ⟨List.prefix_rfl, ?_⟩
    rintro event order rfl
    simp at hmove

theorem Told.step {i : ℕ} {e : Event T} (h : Told w i) (hchange : Change maxsize w e i (w'.sub i))
    (hs : w.step maxsize e = some w') : Told w' i := by
  obtain ⟨⟨more, hmore⟩, hnew⟩ := published_step hs
  have hold : ∀ p ∈ (w.sub i).heard, w'.published[p.1]? = some p.2 := by
    intro p hp
    obtain ⟨hlt, -⟩ := List.getElem?_eq_some_iff.mp (h.published p hp)
    rw [← hmore, List.getElem?_append_left hlt]
    exact h.published p hp
  cases hchange with
  | quiet hitems hheard hlength =>
    refine ⟨?_, ?_, ?_⟩
    · rw [hitems, hheard]
      exact h.sublist
    · rw [hheard]
      exact h.ascending
    · rw [hheard]
      exact hold
  | heard event order he hi hreg hreceived hheard hlength hitems =>
    rw [hnew event order he] at hold
    refine ⟨?_, ?_, ?_⟩
    · rw [hreceived, hheard]
      obtain ⟨-, hitems⟩ | ⟨-, oldest, rest, hqueue, hitems⟩ := hitems
      · rw [hitems, ← List.append_assoc]
        exact h.sublist.append (List.Sublist.refl _)
      · rw [hitems, ← List.append_assoc]
        refine List.Sublist.append (List.Sublist.trans ?_ h.sublist) (List.Sublist.refl _)
        rw [hqueue]
        exact (List.sublist_cons_self oldest rest).append_left _
    · rw [hheard, List.pairwise_append]
      refine ⟨h.ascending, List.pairwise_singleton .., ?_⟩
      intro p hp q hq
      rw [List.mem_singleton.mp hq]
      exact (List.getElem?_eq_some_iff.mp (h.published p hp)).1
    · intro p hp
      rw [hnew event order he]
      rw [hheard] at hp
      obtain hp | hp := List.mem_append.mp hp
      · exact hold p hp
      · rw [List.mem_singleton.mp hp]
        exact List.getElem?_concat_length

/-- What every run keeps. -/
theorem sound_told_of_exec (hmax : 1 ≤ maxsize) {es : List (Event T)} :
    ∀ {w : World T}, (World.step maxsize).exec .init es = some w →
      Sound maxsize w ∧ ∀ i, Told w i := by
  induction es using List.reverseRecOn with
  | nil =>
    intro w hrun
    obtain rfl := Option.some.inj hrun
    refine ⟨⟨List.nodup_nil, ?_, fun _ ↦ Nat.zero_le _⟩, ?_⟩
    · exact fun i ↦ iff_of_false List.not_mem_nil Bool.false_ne_true
    · exact fun i ↦ ⟨List.Sublist.refl _, List.Pairwise.nil, fun _ hp ↦ absurd hp List.not_mem_nil⟩
  | append_singleton es e ih =>
    intro w hrun
    obtain ⟨w₁, hrun, hs⟩ := Machine.exec_concat_eq_some_iff.mp hrun
    obtain ⟨hsound, htold⟩ := ih hrun
    obtain ⟨hsound', hchange⟩ := hsound.step hmax hs
    exact ⟨hsound', fun i ↦ (htold i).step (hchange i) hs⟩

/-- In a sequence of events a publication was made that found the queue of a subscriber full, and
`p` was the oldest item there. -/
def Dropped (maxsize : ℕ) (es : List (Event T)) (i : ℕ) (p : Publication T) : Prop :=
  ∃ before event order after w₀, es = before ++ .publish event order :: after ∧
    (World.step maxsize).exec .init before = some w₀ ∧ i ∈ order ∧
    (w₀.sub i).queue.isFull maxsize = true ∧ (w₀.sub i).queue.items.head? = some p

theorem Dropped.concat {es : List (Event T)} {i : ℕ} {p : Publication T}
    (h : Dropped maxsize es i p) (e : Event T) : Dropped maxsize (es ++ [e]) i p := by
  obtain ⟨before, event, order, after, w₀, rfl, hw₀⟩ := h
  exact ⟨before, event, order, after ++ [e], w₀, by simp, hw₀⟩

/-- What is missing was the oldest item of a full queue. -/
theorem dropped_of_missing (hmax : 1 ≤ maxsize) {i : ℕ} {p : Publication T}
    {es : List (Event T)} :
    ∀ {w : World T}, (World.step maxsize).exec .init es = some w → p ∈ (w.sub i).heard →
      p ∉ (w.sub i).received ++ (w.sub i).queue.items → Dropped maxsize es i p := by
  induction es using List.reverseRecOn with
  | nil =>
    intro w hrun hheard
    obtain rfl := Option.some.inj hrun
    exact absurd hheard List.not_mem_nil
  | append_singleton es e ih =>
    intro w hrun hheard hmissing
    obtain ⟨w₁, hrun, hs⟩ := Machine.exec_concat_eq_some_iff.mp hrun
    obtain ⟨hsound, -⟩ := sound_told_of_exec hmax hrun
    cases (hsound.step hmax hs).2 i with
    | quiet hitems hheard' hlength =>
      rw [hheard'] at hheard
      rw [hitems] at hmissing
      exact (ih hrun hheard hmissing).concat e
    | heard event order he hi hreg hreceived hheard' hlength hitems =>
      rw [hreceived] at hmissing
      rw [hheard'] at hheard
      obtain hheard | hheard := List.mem_append.mp hheard
      · obtain ⟨-, hitems⟩ | ⟨hfull, oldest, rest, hqueue, hitems⟩ := hitems
        · refine (ih hrun hheard ?_).concat e
          rw [hitems, ← List.append_assoc] at hmissing
          exact fun hmem ↦ hmissing (List.mem_append_left _ hmem)
        · -- It went now, or it was missing before.
          by_cases hp : p = oldest
          · rw [he]
            exact ⟨es, event, order, [], w₁, rfl, hrun, hi, hfull, by rw [hqueue, hp]; rfl⟩
          · refine (ih hrun hheard ?_).concat e
            rw [hitems] at hmissing
            rw [hqueue]
            intro hmem
            refine hmissing ?_
            simp only [List.mem_append, List.mem_cons, hp, false_or] at hmem ⊢
            exact hmem.imp_right .inl
      · refine absurd ?_ hmissing
        rw [List.mem_singleton.mp hheard]
        obtain ⟨-, hitems⟩ | ⟨-, oldest, rest, -, hitems⟩ := hitems <;> rw [hitems] <;> simp

/-! ## One subscriber alone -/

/-- The bus with one of its subscribers. -/
def World.alone (i : ℕ) (w : World T) : World T where
  subscribers := w.subscribers.filter (· = i)
  sub := Function.update (fun _ ↦ .init) i (w.sub i)
  published := w.published

/-- What a subscriber sees of an event: the publications, and what it does itself. -/
def view (i : ℕ) : Event T → Option (Event T)
  | .publish event order => some (.publish event (order.filter (· = i)))
  | .subscribe j => if j = i then some (.subscribe j) else none
  | .get j => if j = i then some (.get j) else none
  | .resume j => if j = i then some (.resume j) else none
  | .cancel j => if j = i then some (.cancel j) else none
  | .close j => if j = i then some (.close j) else none

@[simp] theorem alone_sub_self (i : ℕ) (w : World T) : (w.alone i).sub i = w.sub i := by
  simp [World.alone]

theorem alone_set_self (i : ℕ) (s : Subscription T) (w : World T) :
    (w.set i s).alone i = (w.alone i).set i s := by
  simp [World.alone, World.set]

theorem alone_set_of_ne {i j : ℕ} (hj : j ≠ i) (s : Subscription T) (w : World T) :
    (w.set j s).alone i = w.alone i := by
  simp [World.alone, World.set, hj.symm]

theorem alone_unregister_self (i : ℕ) (s : Subscription T) (w : World T) :
    (w.unregister i s).alone i = (w.alone i).unregister i s := by
  simp [World.alone, World.unregister, List.filter_filter]

theorem alone_unregister_of_ne {i j : ℕ} (hj : j ≠ i) (s : Subscription T) (w : World T) :
    (w.unregister j s).alone i = w.alone i := by
  have hfilter : (w.subscribers.filter (· ≠ j)).filter (· = i) = w.subscribers.filter (· = i) := by
    rw [List.filter_filter]
    congr 1
    funext k
    by_cases hk : k = i
    · simp [hk, hj.symm]
    · simp [hk]
  rw [World.alone, World.unregister, World.alone]
  dsimp only
  rw [hfilter, Function.update_of_ne hj.symm]

/-- A publication reaches one subscriber as it would if it were alone. -/
theorem publishTo_alone {p : Publication T} {order : List ℕ} (hnodup : order.Nodup) {i : ℕ}
    {sub : ℕ → Subscription T} (hdeliver : ∀ j ∈ order, ∃ s, (sub j).deliver maxsize p = some s)
    {sub' : ℕ → Subscription T} (hsub : sub' i = sub i) :
    World.publishTo maxsize p (order.filter (· = i)) sub' =
      Function.update sub' i (World.publishTo maxsize p order sub i) := by
  have happly := publishTo_apply hnodup i hdeliver
  rw [List.filter_eq]
  by_cases hi : i ∈ order
  · rw [if_pos hi] at happly
    rw [List.count_eq_one_of_mem hnodup hi]
    show World.publishTo maxsize p [i] sub' = _
    rw [World.publishTo, hsub, happly]
    rfl
  · rw [if_neg hi] at happly
    rw [List.count_eq_zero_of_not_mem hi, happly, ← hsub, Function.update_eq_self]
    rfl

theorem view_move {i j : ℕ} {e : Event T}
    (he : e = .get j ∨ e = .resume j ∨ e = .cancel j ∨ e = .close j) :
    view i e = if j = i then some e else none := by
  rcases he with rfl | rfl | rfl | rfl <;> rfl

theorem step_alone (hmax : 1 ≤ maxsize) (h : Sound maxsize w) {e : Event T}
    (hs : w.step maxsize e = some w') (i : ℕ) :
    match view i e with
    | some e' => (w.alone i).step maxsize e' = some (w'.alone i)
    | none => w'.alone i = w.alone i := by
  rcases World.step_cases hs with ⟨event, order, rfl, hperm, rfl⟩ | ⟨j, rfl, hplace, rfl⟩ |
    ⟨j, s, hmove, -, -, -, ⟨-, rfl, hown⟩ | ⟨rfl, hown⟩⟩
  · set p : Publication T := (w.published.length, event) with hp
    have hdeliver := h.exists_deliver hmax hperm p
    have hperm' : (order.filter (· = i)).Perm (w.alone i).subscribers := hperm.filter _
    have htell : (w.alone i).tell p i = w.tell p i := by
      rw [World.tell, World.tell, alone_sub_self]
      simp [World.alone]
    rw [view]
    dsimp only
    rw [World.step, if_pos hperm']
    dsimp only
    rw [show (w.alone i).published = w.published from rfl, ← hp,
      publishTo_alone (hperm.nodup_iff.mpr h.nodup) hdeliver htell]
    congr 2
    funext j
    rw [Function.update_apply, World.alone, Function.update_apply]
    split_ifs with hj
    · rfl
    · rw [World.tell, if_neg]
      · dsimp only
        rw [Function.update_of_ne hj]
      · simp [hj]
  · rw [view]
    split_ifs with hj
    · subst hj
      dsimp only
      rw [World.step, alone_sub_self, hplace]
      simp [World.alone, World.set]
    · simp [World.alone, World.set, hj, Ne.symm hj]
  · rw [view_move hmove]
    split_ifs with hj
    · subst hj
      dsimp only
      rw [hown _ (alone_sub_self ..), alone_set_self]
    · exact alone_set_of_ne hj ..
  · rw [view_move hmove]
    split_ifs with hj
    · subst hj
      dsimp only
      rw [hown _ (alone_sub_self ..), alone_unregister_self]
    · exact alone_unregister_of_ne hj ..

theorem exec_alone (hmax : 1 ≤ maxsize) (i : ℕ) {es : List (Event T)} :
    ∀ {w : World T}, (World.step maxsize).exec .init es = some w →
      (World.step maxsize).exec .init (es.filterMap (view i)) = some (w.alone i) := by
  induction es using List.reverseRecOn with
  | nil =>
    intro w hrun
    obtain rfl := Option.some.inj hrun
    refine congrArg some ?_
    rw [World.alone, World.init, Function.update_eq_self]
    rfl
  | append_singleton es e ih =>
    intro w hrun
    obtain ⟨w₁, hrun, hs⟩ := Machine.exec_concat_eq_some_iff.mp hrun
    have halone := step_alone hmax (sound_told_of_exec hmax hrun).1 hs i
    rw [List.filterMap_append]
    cases hview : view i e with
    | none =>
      rw [hview] at halone
      rw [List.filterMap_cons_none hview, List.filterMap_nil, List.append_nil, halone]
      exact ih hrun
    | some e' =>
      rw [hview] at halone
      rw [List.filterMap_cons_some hview, List.filterMap_nil]
      exact Machine.exec_concat_eq_some_iff.mpr ⟨_, ih hrun, halone⟩

/-- For every sequence of events a subscriber receives a subsequence of what is published while it
is registered; what it misses was the oldest item of its own queue when a publication found it
full; and all of it is what it receives alone on the bus. -/
theorem delivery (hmax : 1 ≤ maxsize) {es : List (Event T)}
    (hrun : (World.step maxsize).exec .init es = some w) (i : ℕ) :
    ((w.sub i).received ++ (w.sub i).queue.items).Sublist (w.sub i).heard ∧
      (w.sub i).heard.Pairwise (fun p q ↦ p.1 < q.1) ∧
      (∀ p ∈ (w.sub i).heard, w.published[p.1]? = some p.2) ∧
      (∀ p ∈ (w.sub i).heard, p ∉ (w.sub i).received ++ (w.sub i).queue.items →
        Dropped maxsize es i p) ∧
      (World.step maxsize).exec .init (es.filterMap (view i)) = some (w.alone i) := by
  have htold := (sound_told_of_exec hmax hrun).2 i
  exact ⟨htold.sublist, htold.ascending, htold.published,
    fun p hheard hmissing ↦ dropped_of_missing hmax hrun hheard hmissing,
    exec_alone hmax i hrun⟩

/-- Two subscribers on queues for one item: one reads in time, the other too late. -/
theorem delivery_slow_beside_fast :
    let es : List (Event ℕ) := [.subscribe 0, .subscribe 1, .get 0, .publish 7 [1, 0], .resume 0,
      .get 0, .publish 8 [0, 1], .resume 0, .get 1]
    ∃ w, (World.step 1).exec .init es = some w ∧ (w.sub 0).received = [(0, 7), (1, 8)] ∧
      (w.sub 1).received = [(1, 8)] ∧ Dropped 1 es 1 (0, 7) ∧
      (World.step 1).exec .init (es.filterMap (view 0)) = some (w.alone 0) := by
  intro es
  have hexec : ((World.step 1).exec .init es).any (fun w ↦
      (w.sub 0).received = [(0, 7), (1, 8)] ∧ (w.sub 1).received = [(1, 8)] ∧
        (w.sub 1).heard = [(0, 7), (1, 8)] ∧ (w.sub 1).queue.items = []) = true := by
    decide +kernel
  obtain ⟨w, hrun, hw⟩ := (Option.any_eq_true _ _).mp hexec
  obtain ⟨hfast, hslow, hheard, hitems⟩ := of_decide_eq_true hw
  obtain ⟨-, -, -, hdropped, -⟩ := delivery (by decide) hrun 1
  obtain ⟨-, -, -, -, halone⟩ := delivery (by decide) hrun 0
  refine ⟨w, hrun, hfast, hslow, hdropped (0, 7) ?_ ?_, halone⟩
  · rw [hheard]
    decide
  · rw [hslow, hitems]
    decide

end TgMessenger.Events
