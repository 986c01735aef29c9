import Mathlib.Data.List.Basic
import Mathlib.Logic.Function.Basic
import Mathlib.Tactic.Common

/-!
# Layers of settings

A setting is a finite or infinite map from keys to values.  A layer fills in what the setting
lacks: key by key, but for one group of keys, which a layer fills in as a whole or not at all.
Layers that come first win, and a layer that comes twice counts once.
-/

universe u v

namespace Layers

variable {K : Type u} {V : Type v}

/-- The first layer that holds the key gives its value. -/
theorem findSome?_concat {α β : Type*} (l : List α) (a : α) (f : α → Option β) :
    (l ++ [a]).findSome? f = (l.findSome? f).or (f a) := by
  rw [List.findSome?_append, List.findSome?_cons, List.findSome?_nil]
  cases f a <;> rfl

theorem find?_concat {α : Type*} (l : List α) (a : α) (p : α → Bool) :
    (l ++ [a]).find? p = (l.find? p).or (if p a then some a else none) := by
  rw [List.find?_append, List.find?_cons, List.find?_nil]
  cases p a <;> rfl

/-- Of a list that holds a value for the key, one more copy of an entry changes nothing. -/
theorem findSome?_or_of_mem {α β : Type*} {l : List α} {a : α} (f : α → Option β)
    (h : a ∈ l) : (l.findSome? f).or (f a) = l.findSome? f := by
  cases hfirst : l.findSome? f with
  | some b => rfl
  | none => exact List.findSome?_eq_none_iff.mp hfirst a h

variable [DecidableEq K] (group : List K) (whole : (K → Option V) → Bool)

/-- Whether a setting holds no key of the group. -/
def Unset (env : K → Option V) : Prop := ∀ k ∈ group, env k = none

instance (env : K → Option V) : Decidable (Unset group env) :=
  decidable_of_iff (∀ k ∈ group, (env k).isNone = true) <| by
    simp only [Option.isNone_iff_eq_none, Unset]

/-- What a setting is under one more layer. -/
def layer (env d : K → Option V) (k : K) : Option V :=
  if k ∈ group then
    if Unset group env ∧ whole d = true then d k else env k
  else (env k).or (d k)

variable {group whole}

theorem layer_of_notMem {k : K} (hk : k ∉ group) (env d : K → Option V) :
    layer group whole env d k = (env k).or (d k) := if_neg hk

theorem layer_of_mem {k : K} (hk : k ∈ group) (env d : K → Option V) :
    layer group whole env d k = if Unset group env ∧ whole d = true then d k else env k :=
  if_pos hk

/-- Keys outside the group may change, the group is as unset as it was. -/
theorem unset_update {key : K} (hkey : key ∉ group) (x : Option V) (env : K → Option V) :
    Unset group (Function.update env key x) ↔ Unset group env := by
  refine forall₂_congr fun k hk ↦ ?_
  rw [Function.update_of_ne (ne_of_mem_of_not_mem hk hkey)]

/-- A key outside the group is changed before the layer or after it. -/
theorem layer_update {key : K} (hkey : key ∉ group) {x : Option V} {d : K → Option V}
    (hx : x.or (d key) = x) (env : K → Option V) :
    layer group whole (Function.update env key x) d =
      Function.update (layer group whole env d) key x := by
  funext k
  by_cases hk : k = key
  · subst hk
    rw [layer_of_notMem hkey, Function.update_self, Function.update_self, hx]
  · rw [Function.update_of_ne hk, layer, layer, Function.update_of_ne hk]
    simp only [unset_update hkey]

/-! ## Several layers -/

/-- Outside the group the first of the setting and its layers wins. -/
theorem foldl_layer_of_notMem {k : K} (hk : k ∉ group) (ds : List (K → Option V)) :
    ∀ env : K → Option V,
      ds.foldl (layer group whole) env k = (env k).or (ds.findSome? fun d ↦ d k) := by
  induction ds with
  | nil =>
    intro env
    rw [List.foldl_nil, List.findSome?_nil, Option.or_none]
  | cons d ds ih =>
    intro env
    rw [List.foldl_cons, ih, layer_of_notMem hk, List.findSome?_cons, Option.or_assoc]
    cases d k <;> rfl

/-- A setting that holds a key of the group keeps the group. -/
theorem foldl_layer_of_set {k : K} (hk : k ∈ group) (ds : List (K → Option V)) :
    ∀ env : K → Option V, ¬ Unset group env → ds.foldl (layer group whole) env k = env k := by
  induction ds with
  | nil => exact fun _ _ ↦ rfl
  | cons d ds ih =>
    intro env hset
    have hlayer : ∀ k ∈ group, layer group whole env d k = env k := by
      intro k hk
      rw [layer_of_mem hk, if_neg]
      exact fun h ↦ hset h.1
    have hset' : ¬ Unset group (layer group whole env d) := by
      intro h
      refine hset fun k hk ↦ ?_
      rw [← hlayer k hk]
      exact h k hk
    rw [List.foldl_cons, ih _ hset', hlayer k hk]

/-- A setting that holds no key of the group takes it from the first whole layer. -/
theorem foldl_layer_of_unset (hwhole : ∀ d, whole d = true → ∀ k ∈ group, d k ≠ none)
    {k : K} (hk : k ∈ group) (ds : List (K → Option V)) :
    ∀ env : K → Option V, Unset group env →
      ds.foldl (layer group whole) env k = (ds.find? whole).bind fun d ↦ d k := by
  induction ds with
  | nil => exact fun env hunset ↦ hunset k hk
  | cons d ds ih =>
    intro env hunset
    rw [List.foldl_cons, List.find?_cons]
    cases hd : whole d with
    | true =>
      have hlayer : ∀ k ∈ group, layer group whole env d k = d k := by
        intro k hk
        rw [layer_of_mem hk, if_pos ⟨hunset, hd⟩]
      rw [foldl_layer_of_set hk, hlayer k hk]
      · rfl
      · intro h
        have hnone := h k hk
        rw [hlayer k hk] at hnone
        exact hwhole d hd k hk hnone
    | false =>
      refine ih _ fun k hk ↦ ?_
      rw [layer_of_mem hk, if_neg, hunset k hk]
      rw [hd]
      simp

/-- What a setting holds stays. -/
theorem foldl_layer_of_ne_none (ds : List (K → Option V)) {env : K → Option V} {k : K}
    (hk : env k ≠ none) : ds.foldl (layer group whole) env k = env k := by
  by_cases hmem : k ∈ group
  · exact foldl_layer_of_set hmem ds env fun hunset ↦ hk (hunset k hmem)
  · obtain ⟨v, hv⟩ := Option.ne_none_iff_exists'.mp hk
    rw [foldl_layer_of_notMem hmem, hv, Option.some_or]

/-- What neither a setting nor a layer holds stays unset. -/
theorem foldl_layer_eq_none {k : K} {ds : List (K → Option V)} (hds : ∀ d ∈ ds, d k = none) :
    ∀ env : K → Option V, env k = none → ds.foldl (layer group whole) env k = none := by
  induction ds with
  | nil => exact fun _ hk ↦ hk
  | cons d ds ih =>
    intro env hk
    have hd : d k = none := hds d List.mem_cons_self
    refine ih (fun e he ↦ hds e (List.mem_cons_of_mem d he)) _ ?_
    rw [layer, hd, hk, ite_self, Option.none_or, ite_self]

/-- A layer that was there changes nothing. -/
theorem layer_of_mem_layers (hwhole : ∀ d, whole d = true → ∀ k ∈ group, d k ≠ none)
    {ds : List (K → Option V)} {d : K → Option V} (hd : d ∈ ds) (env : K → Option V) :
    layer group whole (ds.foldl (layer group whole) env) d =
      ds.foldl (layer group whole) env := by
  have hconcat : layer group whole (ds.foldl (layer group whole) env) d =
      (ds ++ [d]).foldl (layer group whole) env := by
    rw [List.foldl_append, List.foldl_cons, List.foldl_nil]
  rw [hconcat]
  funext k
  by_cases hk : k ∈ group
  · by_cases hunset : Unset group env
    · rw [foldl_layer_of_unset hwhole hk _ _ hunset, foldl_layer_of_unset hwhole hk _ _ hunset,
        find?_concat]
      cases hfirst : ds.find? whole with
      | some first => rfl
      | none =>
        rw [if_neg (List.find?_eq_none.mp hfirst d hd)]
        rfl
    · rw [foldl_layer_of_set hk _ _ hunset, foldl_layer_of_set hk _ _ hunset]
  · rw [foldl_layer_of_notMem hk, foldl_layer_of_notMem hk, findSome?_concat,
      findSome?_or_of_mem (fun d ↦ d k) hd]

end Layers
