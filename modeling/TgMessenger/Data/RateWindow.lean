import TgMessenger.Data.OrderedDict
import Mathlib.Algebra.Order.Group.Defs
import Mathlib.Algebra.Order.Group.Unbundled.Basic
import Mathlib.Data.List.Dedup
import Mathlib.Data.List.Induction
import Mathlib.Data.List.TakeWhile
import Mathlib.Order.Defs.LinearOrder

/-!
# Sliding windows in a bounded table

A rate limiter keeps, for every key, the times of its last events.  A window is pruned only
when its key has an event, from the old end and as long as the oldest time is beyond the
horizon; the table keeps the keys that had an event last, `cap` of them.

Under a clock that never goes back the count never exceeds the number of events within the
horizon, and it is that number while fewer than `cap` other keys had an event since the
oldest of them.
-/

universe u v

/-- In a sorted list, pruning from the old end is filtering. -/
theorem List.dropWhile_eq_filter_of_sorted {R : Type v} [LinearOrder R] {p : R → Bool}
    (hp : ∀ x y, x ≤ y → p y = true → p x = true) {l : List R} (hl : l.Pairwise (· ≤ ·)) :
    l.dropWhile p = l.filter (!p ·) := by
  induction l with
  | nil => rfl
  | cons x l ih =>
    rw [List.pairwise_cons] at hl
    cases hx : p x with
    | true =>
      rw [List.dropWhile_cons_of_pos hx, List.filter_cons_of_neg (by simp [hx]), ih hl.2]
    | false =>
      have hall : ∀ y ∈ x :: l, (!p y) = true := by
        intro y hy
        rcases List.mem_cons.mp hy with rfl | hy
        · simp [hx]
        · by_contra hpy
          have htrue : p y = true := by simpa using hpy
          rw [hp x y (hl.1 y hy) htrue] at hx
          cases hx
      rw [List.dropWhile_cons_of_neg (by simp [hx]), List.filter_eq_self.mpr hall]

namespace RateWindow

variable {K : Type u} [DecidableEq K]
variable {R : Type v} [AddCommGroup R] [LinearOrder R] [IsOrderedAddMonoid R]

/-! ## Pruning -/

/-- What is left when the times beyond the horizon are dropped from the old end. -/
def prune (horizon now : R) (times : List R) : List R :=
  times.dropWhile fun t ↦ decide (horizon < now - t)

/-- What a window does not have of the times of a key is beyond the horizon. -/
def Holds (horizon now : R) (times window : List R) : Prop :=
  ∃ old, times = old ++ window ∧ ∀ t ∈ old, horizon < now - t

namespace Holds

variable {horizon now now' : R} {times window : List R}

omit [IsOrderedAddMonoid R] in
theorem nil : Holds horizon now [] [] := ⟨[], rfl, fun _ ht ↦ absurd ht List.not_mem_nil⟩

theorem mono (h : Holds horizon now times window) (hle : now ≤ now') :
    Holds horizon now' times window := by
  obtain ⟨old, hold, hover⟩ := h
  exact ⟨old, hold, fun t ht ↦ (hover t ht).trans_le (sub_le_sub_right hle t)⟩

omit [IsOrderedAddMonoid R] in
theorem prune (h : Holds horizon now times window) :
    Holds horizon now times (prune horizon now window) := by
  obtain ⟨old, hold, hover⟩ := h
  refine ⟨old ++ window.takeWhile fun t ↦ decide (horizon < now - t), ?_, ?_⟩
  · rw [hold, List.append_assoc, RateWindow.prune, List.takeWhile_append_dropWhile]
  · intro t ht
    rcases List.mem_append.mp ht with ht | ht
    · exact hover t ht
    · exact of_decide_eq_true
        (List.mem_takeWhile_imp (p := fun t ↦ decide (horizon < now - t)) ht)

omit [IsOrderedAddMonoid R] in
theorem concat (h : Holds horizon now times window) (t : R) :
    Holds horizon now (times ++ [t]) (window ++ [t]) := by
  obtain ⟨old, hold, hover⟩ := h
  exact ⟨old, by rw [hold, List.append_assoc], hover⟩

/-- The times of an interval that ends at `now` or later are in the window. -/
theorem length_filter_le (h : Holds horizon now times window) {t : R} (ht : now ≤ t + horizon) :
    (times.filter fun s ↦ decide (t ≤ s ∧ s ≤ t + horizon)).length ≤ window.length := by
  obtain ⟨old, rfl, hover⟩ := h
  have hnone : (old.filter fun s ↦ decide (t ≤ s ∧ s ≤ t + horizon)) = [] := by
    refine List.filter_eq_nil_iff.mpr fun s hs hin ↦ ?_
    have hstart := (of_decide_eq_true hin).1
    have hlt : s + horizon < now := lt_sub_iff_add_lt'.mp (hover s hs)
    exact absurd (hlt.trans_le ht) (not_lt.mpr (add_le_add_left hstart horizon))
  rw [List.filter_append, hnone, List.nil_append]
  exact List.length_filter_le ..

end Holds

/-! ## The limiter -/

/-- The window of a key after an event at `now`. -/
def window (horizon now : R) (times : List R) : List R := prune horizon now (times ++ [now])

/-- The window of `k` after an event of it at `now`, in a table. -/
def next (horizon : R) (d : OrderedDict K (List R)) (k : K) (now : R) : List R :=
  window horizon now ((d.get? k).getD [])

/-- One event: the key and the time. -/
def record (horizon : R) (cap : ℕ) (d : OrderedDict K (List R)) (e : K × R) :
    OrderedDict K (List R) :=
  let d' := (d.set e.1 (next horizon d e.1 e.2)).moveToEnd e.1
  OrderedDict.popFirst^[d'.size - cap] d'

/-- The table after a log of events, oldest first. -/
def table (horizon : R) (cap : ℕ) (log : List (K × R)) : OrderedDict K (List R) :=
  log.foldl (record horizon cap) .empty

omit [IsOrderedAddMonoid R] in
theorem table_concat (horizon : R) (cap : ℕ) (log : List (K × R)) (e : K × R) :
    table horizon cap (log ++ [e]) = record horizon cap (table horizon cap log) e :=
  List.foldl_concat ..

/-! ## What it is to count -/

/-- The times of the events of `k`. -/
def times (k : K) (log : List (K × R)) : List R := (log.filter (·.1 = k)).map Prod.snd

/-- The times of the events of `k` that are at most `horizon` old at `now`. -/
def recent (horizon now : R) (k : K) (log : List (K × R)) : List R :=
  (times k log).filter fun t ↦ decide (now - t ≤ horizon)

/-- The log from the oldest event of `k` on that is at most `horizon` old at `now`. -/
def since (horizon now : R) (k : K) (log : List (K × R)) : List (K × R) :=
  log.dropWhile fun e ↦ !decide (e.1 = k ∧ now - e.2 ≤ horizon)

/-- The keys other than `k` that occur in a log. -/
def others (k : K) (log : List (K × R)) : List K := ((log.map Prod.fst).filter (· ≠ k)).dedup

variable {horizon now : R} {cap : ℕ} {k : K} {log : List (K × R)}

omit [AddCommGroup R] [LinearOrder R] [IsOrderedAddMonoid R] in
theorem times_concat (k : K) (log : List (K × R)) (e : K × R) :
    times k (log ++ [e]) = times k log ++ if e.1 = k then [e.2] else [] := by
  rw [times, List.filter_append, List.map_append]
  by_cases he : e.1 = k
  · rw [if_pos he, List.filter_cons_of_pos (by simp [he])]
    rfl
  · rw [if_neg he, List.filter_cons_of_neg (by simp [he])]
    rfl

omit [AddCommGroup R] [LinearOrder R] [IsOrderedAddMonoid R] in
theorem mem_others {k k' : K} {log : List (K × R)} :
    k' ∈ others k log ↔ k' ∈ log.map Prod.fst ∧ k' ≠ k := by
  simp [others]

omit [AddCommGroup R] [LinearOrder R] [IsOrderedAddMonoid R] in
/-- More of the log has more other keys. -/
theorem length_others_le {log log' : List (K × R)} (h : log ⊆ log') :
    (others k log).length ≤ (others k log').length := by
  refine (List.subperm_of_subset (List.nodup_dedup _) ?_).length_le
  intro x hx
  obtain ⟨hmem, hne⟩ := mem_others.mp hx
  exact mem_others.mpr ⟨List.map_subset _ h hmem, hne⟩

/-- The log from an event on grows with the log. -/
theorem since_concat (e : K × R) (h : since horizon now k log ≠ []) :
    since horizon now k (log ++ [e]) = since horizon now k log ++ [e] := by
  rw [since, List.dropWhile_append]
  have hne : (log.dropWhile fun e ↦ !decide (e.1 = k ∧ now - e.2 ≤ horizon)).isEmpty = false := by
    simpa [since] using h
  rw [hne]
  rfl

omit [IsOrderedAddMonoid R] in
/-- As long as the key has no event within the horizon there is no such log. -/
theorem since_eq_nil_iff :
    since horizon now k log = [] ↔ recent horizon now k log = [] := by
  simp only [since, recent, times, List.dropWhile_eq_nil_iff, List.filter_eq_nil_iff,
    List.mem_map, List.mem_filter, Bool.not_eq_true', decide_eq_false_iff_not, decide_eq_true_eq]
  constructor
  · rintro h t ⟨e, ⟨he, hk⟩, rfl⟩ ht
    exact h e he ⟨hk, ht⟩
  · rintro h e he ⟨hk, ht⟩
    exact h e.2 ⟨e, ⟨he, hk⟩, rfl⟩ ht

/-! ## Never too many -/

omit [IsOrderedAddMonoid R] in
/-- What a table holds of a key are some of its times, in order. -/
theorem sublist_times (horizon : R) (cap : ℕ) (k : K) (log : List (K × R)) :
    (((table horizon cap log).get? k).getD []).Sublist (times k log) := by
  induction log using List.reverseRecOn with
  | nil => exact List.Sublist.refl _
  | append_singleton log e ih =>
    rw [table_concat, times_concat]
    cases hw : (record horizon cap (table horizon cap log) e).get? k with
    | none => exact List.nil_sublist _
    | some w =>
      have hget := OrderedDict.get?_of_iterate_popFirst hw
      rw [OrderedDict.get?_moveToEnd, OrderedDict.get?_set] at hget
      by_cases hk : k = e.1
      · rw [if_pos hk, Option.some.injEq] at hget
        rw [if_pos hk.symm, Option.getD_some, ← hget, next, window, ← hk]
        exact (List.dropWhile_sublist _).trans (ih.append (List.Sublist.refl _))
      · rw [if_neg hk] at hget
        rw [if_neg (Ne.symm hk), List.append_nil, Option.getD_some]
        rwa [hget] at ih

/-- Under a clock that never goes back, pruning keeps what is within the horizon. -/
theorem window_eq_filter {times : List R} (hsorted : (times ++ [now]).Pairwise (· ≤ ·)) :
    window horizon now times = (times ++ [now]).filter fun t ↦ decide (now - t ≤ horizon) := by
  rw [window, prune, List.dropWhile_eq_filter_of_sorted _ hsorted]
  · congr 1
    funext t
    rw [← decide_not]
    simp only [not_lt]
  · intro x y hxy hy
    rw [decide_eq_true_eq] at hy ⊢
    exact hy.trans_le (sub_le_sub_left hxy now)

omit [AddCommGroup R] [IsOrderedAddMonoid R] in
theorem sorted_times (k : K) (hsorted : (log.map Prod.snd).Pairwise (· ≤ ·)) :
    (times k log).Pairwise (· ≤ ·) :=
  hsorted.sublist (List.filter_sublist.map Prod.snd)

/-- The count of an event is at most the number of the events of its key within the horizon. -/
theorem length_next_le (hsorted : ((log ++ [(k, now)]).map Prod.snd).Pairwise (· ≤ ·)) :
    (next horizon (table horizon cap log) k now).length ≤
      (recent horizon now k (log ++ [(k, now)])).length := by
  have htimes := sorted_times k hsorted
  rw [times_concat, if_pos rfl] at htimes
  have hsub := (sublist_times horizon cap k log).append (List.Sublist.refl [now])
  rw [next, window_eq_filter (htimes.sublist hsub), recent, times_concat, if_pos rfl]
  exact (hsub.filter _).length_le

/-! ## All of them -/

/-- The table has the key, with all that is within the horizon at `now`, and the keys after it
had an event since the oldest of that. -/
def Complete (horizon now : R) (cap : ℕ) (k : K) (log : List (K × R)) : Prop :=
  ∃ w before after, (table horizon cap log).items = before ++ (k, w) :: after ∧
    w.filter (fun t ↦ decide (now - t ≤ horizon)) = recent horizon now k log ∧
    after.map Prod.fst ⊆ others k (since horizon now k log)

/-- What an event that is not later than `now` prunes is beyond the horizon at `now`. -/
theorem filter_window {t : R} (ht : t ≤ now) (times : List R) :
    (window horizon t times).filter (fun t ↦ decide (now - t ≤ horizon)) =
      (times ++ [t]).filter fun t ↦ decide (now - t ≤ horizon) := by
  rw [window, prune]
  induction times ++ [t] with
  | nil => rfl
  | cons x l ih =>
    by_cases hx : horizon < t - x
    · have hbeyond : ¬ now - x ≤ horizon :=
        not_le.mpr (hx.trans_le (sub_le_sub_right ht x))
      rw [List.dropWhile_cons_of_pos (by simp [hx]), List.filter_cons_of_neg (by simp [hbeyond]),
        ih]
    · rw [List.dropWhile_cons_of_neg (by simp [hx])]

omit [DecidableEq K] [AddCommGroup R] [LinearOrder R] [IsOrderedAddMonoid R] in
/-- Evicting the oldest keys leaves one that fewer than `cap` keys follow. -/
theorem exists_items_popFirst {d : OrderedDict K (List R)} {before after : List (K × List R)}
    {w : List R} (hitems : d.items = before ++ (k, w) :: after) (hafter : after.length < cap) :
    ∃ before', (OrderedDict.popFirst^[d.size - cap] d).items = before' ++ (k, w) :: after := by
  have hsize : d.size - cap ≤ before.length := by
    rw [OrderedDict.size, hitems, List.length_append, List.length_cons]
    omega
  rw [OrderedDict.items_iterate_popFirst, hitems, List.drop_append_of_le_length hsize]
  exact ⟨_, rfl⟩

/-- An event of the key itself: it becomes the newest. -/
theorem complete_concat_self {t : R} (ht : t ≤ now) (hcap : 0 < cap)
    (htimes : (((table horizon cap log).get? k).getD []).filter
      (fun t ↦ decide (now - t ≤ horizon)) = recent horizon now k log) :
    Complete horizon now cap k (log ++ [(k, t)]) := by
  have hitems := OrderedDict.items_moveToEnd_set (table horizon cap log) k
    (next horizon (table horizon cap log) k t)
  obtain ⟨before, hbefore⟩ := exists_items_popFirst hitems hcap
  refine ⟨next horizon (table horizon cap log) k t, before, [], ?_, ?_, List.nil_subset _⟩
  · rw [table_concat]
    exact hbefore
  · rw [next, filter_window ht, List.filter_append, htimes, recent, recent, times_concat,
      if_pos rfl, List.filter_append]

/-- An event of another key: the key has one more after it, at most. -/
theorem complete_concat_other {e : K × R} (he : e.1 ≠ k) (hsince : since horizon now k log ≠ [])
    (hcap : (others k (since horizon now k (log ++ [e]))).length < cap)
    (h : Complete horizon now cap k log) : Complete horizon now cap k (log ++ [e]) := by
  unfold Complete
  obtain ⟨w, before, after, hitems, hw, hafter⟩ := h
  have hset := OrderedDict.items_moveToEnd_set (table horizon cap log) e.1
    (next horizon (table horizon cap log) e.1 e.2)
  rw [OrderedDict.items_erase, hitems, List.filter_append,
    List.filter_cons_of_pos (by simpa using Ne.symm he), List.append_assoc, List.cons_append]
    at hset
  rw [since_concat e hsince] at hcap ⊢
  -- the keys after it are among those that the limit is about
  have hsub : (after.filter (fun e' ↦ decide (e'.1 ≠ e.1)) ++
      [(e.1, next horizon (table horizon cap log) e.1 e.2)]).map Prod.fst ⊆
        others k (since horizon now k log ++ [e]) := by
    intro x hx
    rw [List.map_append, List.mem_append] at hx
    rw [mem_others, List.map_append, List.mem_append]
    rcases hx with hx | hx
    · obtain ⟨hmem, hne⟩ := mem_others.mp (hafter (List.map_subset _ List.filter_sublist.subset hx))
      exact ⟨.inl hmem, hne⟩
    · obtain rfl := List.mem_singleton.mp hx
      exact ⟨.inr (List.mem_singleton.mpr rfl), he⟩
  have hnodup := (((table horizon cap log).set e.1
    (next horizon (table horizon cap log) e.1 e.2)).moveToEnd e.1).nodup
  rw [hset, List.map_append] at hnodup
  have hlength := (List.subperm_of_subset
    (List.nodup_cons.mp (List.Nodup.of_append_right hnodup)).2 hsub).length_le
  rw [List.length_map] at hlength
  obtain ⟨before', hbefore'⟩ := exists_items_popFirst hset (hlength.trans_lt hcap)
  refine ⟨w, before', _, ?_, ?_, hsub⟩
  · rw [table_concat]
    exact hbefore'
  · rw [hw, recent, recent, times_concat, if_neg he, List.append_nil]

omit [IsOrderedAddMonoid R] in
/-- What the table has of a key that is complete in it. -/
theorem Complete.get? (h : Complete horizon now cap k log) :
    (((table horizon cap log).get? k).getD []).filter (fun t ↦ decide (now - t ≤ horizon)) =
      recent horizon now k log := by
  obtain ⟨w, before, after, hitems, hw, -⟩ := h
  have hget : (table horizon cap log).get? k = some w := by
    rw [OrderedDict.get?_eq_some_iff, hitems]
    exact List.mem_append_right before List.mem_cons_self
  rw [hget, Option.getD_some, hw]

omit [IsOrderedAddMonoid R] in
/-- A key without an event within the horizon has no such time in the table. -/
theorem filter_eq_nil_of_recent (h : recent horizon now k log = []) :
    (((table horizon cap log).get? k).getD []).filter (fun t ↦ decide (now - t ≤ horizon)) =
      [] := by
  have hsub := (sublist_times horizon cap k log).filter fun t ↦ decide (now - t ≤ horizon)
  exact List.sublist_nil.mp (h ▸ hsub)

/-- While fewer than `cap` other keys have an event, the key stays complete. -/
theorem complete_of_length_others_lt (hnow : ∀ e ∈ log, e.2 ≤ now)
    (hsince : since horizon now k log ≠ [])
    (hcap : (others k (since horizon now k log)).length < cap) :
    Complete horizon now cap k log := by
  induction log using List.reverseRecOn with
  | nil => exact absurd rfl hsince
  | append_singleton log e ih =>
    have hnow' : ∀ e ∈ log, e.2 ≤ now := fun e he ↦ hnow e (List.mem_append_left _ he)
    have ht : e.2 ≤ now := hnow e (List.mem_append_right _ List.mem_cons_self)
    by_cases hlog : since horizon now k log = []
    · -- the oldest event within the horizon is this one
      have hrecent := since_eq_nil_iff.mp hlog
      have hk : e.1 = k := by
        by_contra hk
        apply hsince
        rw [since_eq_nil_iff, recent, times_concat, if_neg hk, List.append_nil]
        exact hrecent
      subst hk
      exact complete_concat_self ht (Nat.zero_lt_of_lt hcap)
        ((filter_eq_nil_of_recent hrecent).trans hrecent.symm)
    · have hle : (others k (since horizon now k log)).length ≤
          (others k (since horizon now k (log ++ [e]))).length := by
        rw [since_concat e hlog]
        exact length_others_le (List.subset_append_left _ _)
      have hcomplete := ih hnow' hlog (hle.trans_lt hcap)
      by_cases hk : e.1 = k
      · subst hk
        exact complete_concat_self ht (Nat.zero_lt_of_lt hcap) hcomplete.get?
      · exact complete_concat_other hk hlog hcap hcomplete

/-- While fewer than `cap` other keys had an event since the oldest of the key's events within
the horizon, the count is the number of those. -/
theorem length_next_eq (hsorted : ((log ++ [(k, now)]).map Prod.snd).Pairwise (· ≤ ·))
    (hcap : (others k (since horizon now k (log ++ [(k, now)]))).length < cap) :
    (next horizon (table horizon cap log) k now).length =
      (recent horizon now k (log ++ [(k, now)])).length := by
  have htimes := sorted_times k hsorted
  rw [times_concat, if_pos rfl] at htimes
  have hsub := (sublist_times horizon cap k log).append (List.Sublist.refl [now])
  have hfilter : (((table horizon cap log).get? k).getD []).filter
      (fun t ↦ decide (now - t ≤ horizon)) = recent horizon now k log := by
    by_cases hlog : since horizon now k log = []
    · rw [filter_eq_nil_of_recent (since_eq_nil_iff.mp hlog), since_eq_nil_iff.mp hlog]
    · rw [since_concat _ hlog] at hcap
      rw [List.map_append, List.pairwise_append] at hsorted
      refine (complete_of_length_others_lt ?_ hlog ?_).get?
      · intro e he
        exact hsorted.2.2 e.2 (List.mem_map_of_mem he) now List.mem_cons_self
      · exact (length_others_le (List.subset_append_left _ _)).trans_lt hcap
  rw [next, window_eq_filter (htimes.sublist hsub), List.filter_append, hfilter, recent, recent,
    times_concat, if_pos rfl, List.filter_append]

end RateWindow
