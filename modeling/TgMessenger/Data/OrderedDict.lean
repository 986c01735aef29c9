import Mathlib.Logic.Function.Iterate
import Mathlib.Data.List.Induction
import Mathlib.Data.List.Nodup
import Mathlib.Data.List.Perm.Basic
import Mathlib.Tactic.Common

/-!
# Insertion-ordered dictionaries

`OrderedDict K V` is Python's `collections.OrderedDict`: a finite map whose entries are
kept in insertion order, oldest first.  No key occurs twice; the structure carries that
as a field, so every operation re-establishes it and no client has to.

`d[k] = v` keeps the place of a key that is already there, `move_to_end` makes it the
newest, `popitem(last=False)` takes the oldest.
-/

universe u v

/-- When no key occurs twice, a lookup finds exactly the entries of the list. -/
theorem List.lookup_eq_some_iff_mem {K : Type u} {V : Type v} [DecidableEq K]
    {l : List (K × V)} (hl : (l.map Prod.fst).Nodup) {k : K} {v : V} :
    l.lookup k = some v ↔ (k, v) ∈ l := by
  induction l with
  | nil => simp
  | cons e l ih =>
    obtain ⟨hne, hl⟩ := List.nodup_cons.mp hl
    rw [List.lookup_cons]
    by_cases hk : k = e.1
    · subst hk
      simp only [beq_self_eq_true, Option.some.injEq, List.mem_cons]
      constructor
      · rintro rfl
        exact .inl rfl
      · rintro (h | h)
        · exact (congrArg Prod.snd h).symm
        · exact absurd (List.mem_map_of_mem (f := Prod.fst) h) hne
    · have hb : (k == e.1) = false := beq_eq_false_iff_ne.mpr hk
      simp only [hb, ih hl, List.mem_cons]
      exact ⟨.inr, fun h ↦ h.resolve_left fun h ↦ hk (congrArg Prod.fst h)⟩

/-- An insertion-ordered finite map. -/
structure OrderedDict (K : Type u) (V : Type v) where
  /-- The entries, oldest first. -/
  items : List (K × V)
  /-- No key occurs twice. -/
  nodup : (items.map Prod.fst).Nodup

namespace OrderedDict

variable {K : Type u} {V : Type v}

@[ext] theorem ext {d d' : OrderedDict K V} (h : d.items = d'.items) : d = d' := by
  cases d; cases d'; congr

/-- The empty dictionary. -/
def empty : OrderedDict K V := ⟨[], List.nodup_nil⟩

/-- `len(d)`. -/
def size (d : OrderedDict K V) : ℕ := d.items.length

/-- The keys, oldest first. -/
def keys (d : OrderedDict K V) : List K := d.items.map Prod.fst

@[simp] theorem size_empty : (empty : OrderedDict K V).size = 0 := rfl

@[simp] theorem items_empty : (empty : OrderedDict K V).items = [] := rfl

/-- Keep the entries that satisfy `p`. -/
def retain (p : K × V → Bool) (d : OrderedDict K V) : OrderedDict K V :=
  ⟨d.items.filter p, d.nodup.sublist (List.filter_sublist.map Prod.fst)⟩

@[simp] theorem items_retain (p : K × V → Bool) (d : OrderedDict K V) :
    (d.retain p).items = d.items.filter p := rfl

/-- `d.popitem(last=False)`, the dictionary that is left. -/
def popFirst (d : OrderedDict K V) : OrderedDict K V :=
  ⟨d.items.tail, d.nodup.sublist ((List.tail_sublist _).map Prod.fst)⟩

@[simp] theorem items_popFirst (d : OrderedDict K V) : d.popFirst.items = d.items.tail := rfl

theorem size_popFirst (d : OrderedDict K V) : d.popFirst.size = d.size - 1 :=
  List.length_tail

theorem nodup_append_new {d : OrderedDict K V} {k : K} (v : V) (h : k ∉ d.keys) :
    ((d.items ++ [(k, v)]).map Prod.fst).Nodup := by
  rw [List.map_append]
  refine List.Nodup.append d.nodup (List.nodup_singleton k) ?_
  intro x hx hk
  rw [List.mem_singleton.mp hk] at hx
  exact h hx

section DecidableEq

variable [DecidableEq K]

/-- `d.get(k)`. -/
def get? (d : OrderedDict K V) (k : K) : Option V := d.items.lookup k

/-- `k in d`. -/
def contains (d : OrderedDict K V) (k : K) : Bool := (d.get? k).isSome

/-- `d.pop(k, None)`, the dictionary that is left. -/
def erase (d : OrderedDict K V) (k : K) : OrderedDict K V := d.retain fun e ↦ e.1 ≠ k

/-- The entries with the value of `k` replaced by `v`. -/
def replace (k : K) (v : V) : List (K × V) → List (K × V) :=
  List.map fun e ↦ if e.1 = k then (k, v) else e

theorem map_fst_replace (k : K) (v : V) (l : List (K × V)) :
    (replace k v l).map Prod.fst = l.map Prod.fst := by
  simp only [replace, List.map_map]
  refine List.map_congr_left fun e _ ↦ ?_
  by_cases h : e.1 = k <;> simp [h]

/-- `d[k] = v`: a key that is already there keeps its place. -/
def set (d : OrderedDict K V) (k : K) (v : V) : OrderedDict K V :=
  if h : k ∈ d.keys then
    ⟨replace k v d.items, by rw [map_fst_replace]; exact d.nodup⟩
  else
    ⟨d.items ++ [(k, v)], nodup_append_new v h⟩

theorem notMem_keys_erase (d : OrderedDict K V) (k : K) : k ∉ (d.erase k).keys := by
  simp [keys, erase]

/-- `d.move_to_end(k)`; a missing key leaves the dictionary as it is. -/
def moveToEnd (d : OrderedDict K V) (k : K) : OrderedDict K V :=
  match d.get? k with
  | some v => ⟨(d.erase k).items ++ [(k, v)], nodup_append_new v (d.notMem_keys_erase k)⟩
  | none => d

/-! ## Lookup -/

theorem get?_eq_some_iff {d : OrderedDict K V} {k : K} {v : V} :
    d.get? k = some v ↔ (k, v) ∈ d.items := List.lookup_eq_some_iff_mem d.nodup

theorem get?_eq_none_iff {d : OrderedDict K V} {k : K} : d.get? k = none ↔ k ∉ d.keys := by
  rw [Option.eq_none_iff_forall_ne_some]
  simp only [ne_eq, get?_eq_some_iff, keys, List.mem_map, not_exists, not_and, Prod.forall]
  exact ⟨fun h a b hb ha ↦ h b (ha ▸ hb), fun h v hv ↦ h k v hv rfl⟩

@[simp] theorem get?_empty (k : K) : (empty : OrderedDict K V).get? k = none := rfl

theorem contains_iff_mem_keys {d : OrderedDict K V} {k : K} :
    d.contains k = true ↔ k ∈ d.keys := by
  rw [contains, Option.isSome_iff_ne_none, ne_eq, get?_eq_none_iff, not_not]

/-- A dictionary is determined by its entries in order; a lookup, by its entries. -/
theorem get?_congr {d d' : OrderedDict K V} {k : K}
    (h : ∀ v, (k, v) ∈ d.items ↔ (k, v) ∈ d'.items) : d.get? k = d'.get? k :=
  Option.ext fun v ↦ by rw [get?_eq_some_iff, get?_eq_some_iff, h]

theorem mem_items_erase {d : OrderedDict K V} {k : K} {e : K × V} :
    e ∈ (d.erase k).items ↔ e ∈ d.items ∧ e.1 ≠ k := by
  simp [erase]

@[simp] theorem get?_erase_self (d : OrderedDict K V) (k : K) : (d.erase k).get? k = none :=
  get?_eq_none_iff.mpr (d.notMem_keys_erase k)

theorem get?_erase_ne (d : OrderedDict K V) {k k' : K} (h : k' ≠ k) :
    (d.erase k).get? k' = d.get? k' :=
  get?_congr fun v ↦ by rw [mem_items_erase]; exact and_iff_left h

theorem get?_erase (d : OrderedDict K V) (k k' : K) :
    (d.erase k).get? k' = if k' = k then none else d.get? k' := by
  by_cases h : k' = k
  · rw [if_pos h, h, get?_erase_self]
  · rw [if_neg h, d.get?_erase_ne h]

@[simp] theorem get?_set_self (d : OrderedDict K V) (k : K) (v : V) :
    (d.set k v).get? k = some v := by
  rw [get?_eq_some_iff, set]
  by_cases h : k ∈ d.keys
  · obtain ⟨e, he, rfl⟩ := List.mem_map.mp h
    simp only [dif_pos h, replace, List.mem_map]
    exact ⟨e, he, if_pos rfl⟩
  · simp [dif_neg h]

theorem get?_set_ne (d : OrderedDict K V) {k k' : K} (v : V) (h : k' ≠ k) :
    (d.set k v).get? k' = d.get? k' := by
  refine get?_congr fun w ↦ ?_
  rw [set]
  by_cases hk : k ∈ d.keys
  · simp only [dif_pos hk, replace, List.mem_map]
    constructor
    · rintro ⟨e, he, hew⟩
      by_cases hek : e.1 = k
      · rw [if_pos hek] at hew
        exact absurd (congrArg Prod.fst hew).symm h
      · rw [if_neg hek] at hew
        exact hew ▸ he
    · exact fun hw ↦ ⟨(k', w), hw, if_neg h⟩
  · simp only [dif_neg hk, List.mem_append, List.mem_singleton, Prod.mk.injEq]
    exact ⟨fun hw ↦ hw.resolve_right fun hw ↦ h hw.1, .inl⟩

theorem get?_retain_eq_some_iff {d : OrderedDict K V} {p : K × V → Bool} {k : K} {v : V} :
    (d.retain p).get? k = some v ↔ d.get? k = some v ∧ p (k, v) = true := by
  rw [get?_eq_some_iff, get?_eq_some_iff, items_retain, List.mem_filter]

theorem get?_set (d : OrderedDict K V) (k k' : K) (v : V) :
    (d.set k v).get? k' = if k' = k then some v else d.get? k' := by
  by_cases h : k' = k
  · rw [if_pos h, h, get?_set_self]
  · rw [if_neg h, d.get?_set_ne v h]

theorem contains_erase_iff {d : OrderedDict K V} {k k' : K} :
    (d.erase k).contains k' = true ↔ k' ≠ k ∧ d.contains k' = true := by
  rw [contains, get?_erase]
  split_ifs with h
  · exact iff_of_false Bool.false_ne_true fun hne ↦ hne.1 h
  · exact (and_iff_right h).symm

theorem contains_set_iff {d : OrderedDict K V} {k k' : K} {v : V} :
    (d.set k v).contains k' = true ↔ k' = k ∨ d.contains k' = true := by
  rw [contains, get?_set]
  split_ifs with h
  · exact iff_of_true rfl (.inl h)
  · exact (or_iff_right h).symm

/-- Moving an entry to the end changes no entry. -/
theorem mem_items_moveToEnd {d : OrderedDict K V} {k : K} {e : K × V} :
    e ∈ (d.moveToEnd k).items ↔ e ∈ d.items := by
  rw [moveToEnd]
  cases hv : d.get? k with
  | none => rfl
  | some v =>
    rw [get?_eq_some_iff] at hv
    simp only [List.mem_append, mem_items_erase, List.mem_singleton]
    constructor
    · rintro (⟨he, -⟩ | rfl)
      · exact he
      · exact hv
    · intro he
      by_cases hk : e.1 = k
      · obtain ⟨a, w⟩ := e
        obtain rfl : a = k := hk
        rw [← get?_eq_some_iff] at he hv
        exact .inr (by rw [Option.some.inj (he.symm.trans hv)])
      · exact .inl ⟨he, hk⟩

@[simp] theorem get?_moveToEnd (d : OrderedDict K V) (k k' : K) :
    (d.moveToEnd k).get? k' = d.get? k' :=
  get?_congr fun _ ↦ mem_items_moveToEnd

/-- Moving an entry to the end only permutes the entries. -/
theorem moveToEnd_perm (d : OrderedDict K V) (k : K) :
    (d.moveToEnd k).items.Perm d.items :=
  (List.perm_ext_iff_of_nodup (d.moveToEnd k).nodup.of_map d.nodup.of_map).mpr
    fun _ ↦ mem_items_moveToEnd

@[simp] theorem size_moveToEnd (d : OrderedDict K V) (k : K) :
    (d.moveToEnd k).size = d.size := (d.moveToEnd_perm k).length_eq

/-- A key that was not there is appended. -/
theorem items_set_new {d : OrderedDict K V} {k : K} (v : V) (h : k ∉ d.keys) :
    (d.set k v).items = d.items ++ [(k, v)] := by
  rw [set, dif_neg h]

/-- What is not among the last entries is not the entry that was moved there. -/
theorem fst_ne_of_mem_take_filter {d : OrderedDict K V} {k : K} {p : K × V → Bool} {n : ℕ}
    {e : K × V} (he : e ∈ ((d.moveToEnd k).items.filter p).take n)
    (hn : n < ((d.moveToEnd k).items.filter p).length) : e.1 ≠ k := by
  rw [moveToEnd] at he hn
  cases hv : d.get? k with
  | none =>
    rw [hv] at he
    have hmem := (List.mem_filter.mp (List.mem_of_mem_take he)).1
    rintro rfl
    exact get?_eq_none_iff.mp hv (List.mem_map_of_mem hmem)
  | some v =>
    simp only [hv, List.filter_append, List.length_append] at he hn
    have hle : n ≤ ((d.erase k).items.filter p).length := by
      have hlast : (List.filter p [(k, v)]).length ≤ 1 := List.length_filter_le ..
      omega
    rw [List.take_append_of_le_length hle] at he
    have hmem := (List.mem_filter.mp (List.mem_of_mem_take he)).1
    exact (mem_items_erase.mp hmem).2

theorem items_erase (d : OrderedDict K V) (k : K) :
    (d.erase k).items = d.items.filter fun e ↦ e.1 ≠ k := rfl

/-- Setting a key and moving it to the end: it is the last, the others are as they were. -/
theorem items_moveToEnd_set (d : OrderedDict K V) (k : K) (v : V) :
    ((d.set k v).moveToEnd k).items = (d.erase k).items ++ [(k, v)] := by
  have herase : ((d.set k v).erase k).items = (d.erase k).items := by
    rw [items_erase, items_erase, set]
    split_ifs with hk
    · simp only [replace]
      induction d.items with
      | nil => rfl
      | cons e l ih =>
        rw [List.map_cons]
        by_cases he : e.1 = k
        · rw [if_pos he, List.filter_cons_of_neg (by simp), List.filter_cons_of_neg (by simp [he]),
            ih]
        · rw [if_neg he, List.filter_cons_of_pos (by simp [he]),
            List.filter_cons_of_pos (by simp [he]), ih]
    · rw [List.filter_append, List.filter_cons_of_neg (by simp), List.filter_nil,
        List.append_nil]
  rw [moveToEnd, get?_set_self]
  exact congrArg (· ++ [(k, v)]) herase

theorem mem_keys_iff {d : OrderedDict K V} {k : K} : k ∈ d.keys ↔ ∃ v, d.get? k = some v := by
  rw [← Option.ne_none_iff_exists', ne_eq, get?_eq_none_iff, not_not]

/-- A key that was there keeps its place. -/
theorem keys_set_of_mem {d : OrderedDict K V} {k : K} (v : V) (h : k ∈ d.keys) :
    (d.set k v).keys = d.keys := by
  rw [set, dif_pos h]
  exact map_fst_replace k v d.items

theorem keys_erase_sublist (d : OrderedDict K V) (k : K) : (d.erase k).keys.Sublist d.keys :=
  List.filter_sublist.map Prod.fst

theorem size_set_le (d : OrderedDict K V) (k : K) (v : V) : (d.set k v).size ≤ d.size + 1 := by
  rw [set]
  split_ifs
  · exact Nat.le_trans (Nat.le_of_eq (List.length_map _)) (Nat.le_succ _)
  · exact Nat.le_of_eq List.length_append

theorem size_set_new {d : OrderedDict K V} {k : K} (v : V) (h : d.get? k = none) :
    (d.set k v).size = d.size + 1 := by
  rw [size, items_set_new v (get?_eq_none_iff.mp h), List.length_append]
  rfl

/-! ## Updates -/

/-- `d.update(pairs)`. -/
def update (d : OrderedDict K V) (pairs : List (K × V)) : OrderedDict K V :=
  pairs.foldl (fun d e ↦ d.set e.1 e.2) d

/-- What comes last counts. -/
theorem get?_update (d : OrderedDict K V) (pairs : List (K × V)) (k : K) :
    (d.update pairs).get? k = (pairs.reverse.lookup k).or (d.get? k) := by
  induction pairs using List.reverseRecOn with
  | nil => rfl
  | append_singleton pairs e ih =>
    rw [update, List.foldl_concat, ← update, get?_set, ih, List.reverse_append,
      List.reverse_singleton, List.singleton_append, List.lookup_cons]
    by_cases hk : k = e.1
    · rw [if_pos hk, hk, beq_self_eq_true, Option.some_or]
    · rw [if_neg hk, beq_eq_false_iff_ne.mpr hk]

/-- Pairs without a repeated key are all there. -/
theorem get?_update_eq_some_iff {d : OrderedDict K V} {pairs : List (K × V)}
    (hpairs : (pairs.map Prod.fst).Nodup) {k : K} {v : V} :
    (d.update pairs).get? k = some v ↔
      (k, v) ∈ pairs ∨ k ∉ pairs.map Prod.fst ∧ d.get? k = some v := by
  have hreverse : (pairs.reverse.map Prod.fst).Nodup := by
    rw [List.map_reverse]
    exact List.nodup_reverse.mpr hpairs
  rw [get?_update]
  cases hlookup : pairs.reverse.lookup k with
  | some w =>
    have hmem := List.mem_reverse.mp ((List.lookup_eq_some_iff_mem hreverse).mp hlookup)
    rw [Option.some_or, Option.some.injEq]
    constructor
    · rintro rfl
      exact .inl hmem
    · rintro (hv | ⟨hnot, -⟩)
      · rw [← List.mem_reverse, ← List.lookup_eq_some_iff_mem hreverse, hlookup] at hv
        exact Option.some.inj hv
      · exact absurd (List.mem_map_of_mem hmem) hnot
  | none =>
    have hnot : ∀ w, (k, w) ∉ pairs := by
      intro w hw
      rw [← List.mem_reverse, ← List.lookup_eq_some_iff_mem hreverse, hlookup] at hw
      cases hw
    rw [Option.none_or]
    constructor
    · intro hd
      refine .inr ⟨?_, hd⟩
      intro hk
      obtain ⟨e, he, rfl⟩ := List.mem_map.mp hk
      exact hnot e.2 he
    · rintro (hv | ⟨-, hd⟩)
      · exact absurd hv (hnot v)
      · exact hd

/-! ## The oldest entry -/

section Oldest

variable {d : OrderedDict K V} {e : K × V} {l : List (K × V)}

omit [DecidableEq K] in
theorem fst_ne_of_mem_tail (h : d.items = e :: l) {e' : K × V} (he' : e' ∈ l) : e'.1 ≠ e.1 := by
  intro heq
  have hnodup := d.nodup
  rw [h, List.map_cons, List.nodup_cons, ← heq] at hnodup
  exact hnodup.1 (List.mem_map_of_mem he')

theorem get?_oldest (h : d.items = e :: l) : d.get? e.1 = some e.2 :=
  get?_eq_some_iff.mpr (h ▸ List.mem_cons_self)

/-- Dropping the oldest entry. -/
theorem get?_popFirst (h : d.items = e :: l) (k : K) :
    d.popFirst.get? k = if k = e.1 then none else d.get? k := by
  rw [← get?_erase]
  refine get?_congr fun v ↦ ?_
  rw [items_popFirst, mem_items_erase, h, List.tail_cons, List.mem_cons]
  constructor
  · exact fun hmem ↦ ⟨.inr hmem, fst_ne_of_mem_tail h hmem⟩
  · rintro ⟨heq | hmem, hne⟩
    · exact absurd (congrArg Prod.fst heq) hne
    · exact hmem

omit [DecidableEq K] in
theorem items_iterate_popFirst (n : ℕ) (d : OrderedDict K V) :
    (popFirst^[n] d).items = d.items.drop n := by
  induction n generalizing d with
  | zero => rfl
  | succ n ih => rw [Function.iterate_succ_apply, ih, items_popFirst, List.drop_tail]

/-- What is left was there. -/
theorem get?_of_iterate_popFirst {n : ℕ} {d : OrderedDict K V} {k : K} {v : V}
    (h : (popFirst^[n] d).get? k = some v) : d.get? k = some v := by
  rw [get?_eq_some_iff, items_iterate_popFirst] at h
  exact get?_eq_some_iff.mpr (List.mem_of_mem_drop h)

/-- The oldest entry becomes the newest. -/
theorem items_moveToEnd_oldest (h : d.items = e :: l) :
    (d.moveToEnd e.1).items = l ++ [e] := by
  have herase : (d.erase e.1).items = l := by
    rw [erase, items_retain, h, List.filter_cons_of_neg (by simp), List.filter_eq_self]
    exact fun e' he' ↦ decide_eq_true (fst_ne_of_mem_tail h he')
  rw [moveToEnd, get?_oldest h]
  exact congrArg (· ++ [e]) herase

end Oldest

end DecidableEq

end OrderedDict
