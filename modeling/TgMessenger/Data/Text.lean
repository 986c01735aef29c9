import Mathlib.Data.List.DropRight

/-!
# Text

What the modelled code asks of strings, beyond what Lean has.
-/

namespace TgMessenger

/-- `c.isspace()`: the characters `str.strip` removes. -/
def isSpace (c : Char) : Bool :=
  let n := c.toNat
  (0x09 ≤ n && n ≤ 0x0d) || (0x1c ≤ n && n ≤ 0x20) || n == 0x85 || n == 0xa0 || n == 0x1680 ||
    (0x2000 ≤ n && n ≤ 0x200a) || n == 0x2028 || n == 0x2029 || n == 0x202f || n == 0x205f ||
    n == 0x3000

/-- `not s.strip()`. -/
def isBlank (s : String) : Bool := s.toList.all isSpace

/-- The characters of `s.strip()`. -/
def stripChars (l : List Char) : List Char := (l.dropWhile isSpace).rdropWhile isSpace

/-- `s.strip()`. -/
def strip (s : String) : String := .ofList (stripChars s.toList)

/-- `s.startswith(prefix)`. -/
def startsWith (start s : String) : Bool := start.toList.isPrefixOf s.toList

/-- `s or None`. -/
def orNone (s : String) : Option String := if s = "" then none else some s

theorem startsWith_iff {start s : String} :
    startsWith start s = true ↔ start.toList <+: s.toList := List.isPrefixOf_iff_prefix

/-! ## Stripping at both ends -/

section Strip

variable {α : Type*} (p : α → Bool)

theorem rdropWhile_cons (x : α) (l : List α) :
    (x :: l).rdropWhile p =
      if l.rdropWhile p = [] then (if p x then [] else [x]) else x :: l.rdropWhile p := by
  by_cases hnil : l.rdropWhile p = []
  · have hrev : l.reverse.dropWhile p = [] := List.reverse_eq_nil_iff.mp hnil
    rw [if_pos hnil, List.rdropWhile, List.reverse_cons, List.dropWhile_append, hrev,
      List.isEmpty_nil, if_pos rfl]
    split_ifs with hx
    · rw [List.dropWhile_cons_of_pos hx]
      rfl
    · rw [List.dropWhile_cons_of_neg hx]
      rfl
  · have hrev : ¬ (l.reverse.dropWhile p).isEmpty = true := fun hempty ↦
      hnil (List.reverse_eq_nil_iff.mpr (List.isEmpty_iff.mp hempty))
    rw [if_neg hnil, List.rdropWhile, List.reverse_cons, List.dropWhile_append, if_neg hrev,
      List.reverse_append]
    rfl

/-- Only what follows the last element to keep is taken off the end. -/
theorem rdropWhile_append_cons (l : List α) {x : α} (hx : ¬ p x = true) (r : List α) :
    (l ++ x :: r).rdropWhile p = l ++ x :: r.rdropWhile p := by
  induction l with
  | nil =>
    rw [List.nil_append, rdropWhile_cons, if_neg hx]
    split_ifs with hnil
    · rw [hnil]
      rfl
    · rfl
  | cons y l ih =>
    rw [List.cons_append, rdropWhile_cons, ih, if_neg (by simp)]
    rfl

/-- It does not matter at which end one begins. -/
theorem rdropWhile_dropWhile_comm (l : List α) :
    (l.dropWhile p).rdropWhile p = (l.rdropWhile p).dropWhile p := by
  induction l with
  | nil => rfl
  | cons x l ih =>
    rw [rdropWhile_cons]
    by_cases hx : p x = true
    · rw [List.dropWhile_cons_of_pos hx, ih, if_pos hx]
      split_ifs with hnil
      · rw [hnil]
      · rw [List.dropWhile_cons_of_pos hx]
    · rw [List.dropWhile_cons_of_neg hx, rdropWhile_cons, if_neg hx]
      split_ifs
      · rw [List.dropWhile_cons_of_neg hx]
      · rw [List.dropWhile_cons_of_neg hx]

/-- What is stripped at both ends stays as it is. -/
theorem rdropWhile_dropWhile_idempotent (l : List α) :
    (((l.dropWhile p).rdropWhile p).dropWhile p).rdropWhile p =
      (l.dropWhile p).rdropWhile p := by
  rw [← rdropWhile_dropWhile_comm, List.dropWhile_idempotent, List.rdropWhile_idempotent]

/-- Stripping takes something off, or leaves everything. -/
theorem length_strip_lt {l : List α} (h : (l.dropWhile p).rdropWhile p ≠ l) :
    ((l.dropWhile p).rdropWhile p).length < l.length := by
  have hle : (l.dropWhile p).length ≤ l.length := (List.dropWhile_sublist p).length_le
  have hpre : (l.dropWhile p).rdropWhile p <+: l.dropWhile p := List.rdropWhile_prefix ..
  refine (hpre.length_le.trans hle).lt_of_ne ?_
  intro hlength
  have hsame := hpre.eq_of_length_le (by omega)
  rw [hsame] at hlength h
  exact h ((List.dropWhile_sublist p).eq_of_length hlength)

/-- What stripping leaves as it is has nothing to strip at its beginning. -/
theorem dropWhile_eq_self_of_strip {l : List α} (h : (l.dropWhile p).rdropWhile p = l) :
    l.dropWhile p = l := by
  have hle : (l.dropWhile p).length ≤ l.length := (List.dropWhile_sublist p).length_le
  have hpre : (l.dropWhile p).rdropWhile p <+: l.dropWhile p := List.rdropWhile_prefix ..
  rw [h] at hpre
  exact (List.dropWhile_sublist p).eq_of_length (hle.antisymm hpre.length_le)

theorem head_not_of_strip {x : α} {l : List α}
    (h : ((x :: l).dropWhile p).rdropWhile p = x :: l) : ¬ p x = true := by
  intro hx
  have hdrop := dropWhile_eq_self_of_strip p h
  rw [List.dropWhile_cons_of_pos hx] at hdrop
  have hlength := congrArg List.length hdrop
  have hle := (List.dropWhile_sublist p (l := l)).length_le
  rw [List.length_cons] at hlength
  omega

/-- Stripping leaves a beginning that is not to be stripped. -/
theorem head?_strip {x : α} (hx : ¬ p x = true) (l : List α) :
    (((x :: l).dropWhile p).rdropWhile p).head? = some x := by
  rw [List.dropWhile_cons_of_neg hx, rdropWhile_cons, if_neg hx]
  split_ifs <;> rfl

/-- What would be stripped anyway can be stripped before. -/
theorem dropWhile_dropWhile_of_le {p b : α → Bool} (hle : ∀ x, b x = true → p x = true)
    (l : List α) : (l.dropWhile b).dropWhile p = l.dropWhile p := by
  induction l with
  | nil => rfl
  | cons x l ih =>
    by_cases hx : b x = true
    · rw [List.dropWhile_cons_of_pos hx, ih, List.dropWhile_cons_of_pos (hle x hx)]
    · rw [List.dropWhile_cons_of_neg hx]

theorem strip_strip_of_le {p b : α → Bool} (hle : ∀ x, b x = true → p x = true) (l : List α) :
    (((l.dropWhile b).rdropWhile b).dropWhile p).rdropWhile p = (l.dropWhile p).rdropWhile p := by
  rw [rdropWhile_dropWhile_comm p, List.rdropWhile, List.rdropWhile, List.reverse_reverse,
    dropWhile_dropWhile_of_le hle, ← List.rdropWhile, ← rdropWhile_dropWhile_comm,
    dropWhile_dropWhile_of_le hle]

theorem strip_reverse (l : List α) :
    (l.reverse.dropWhile p).rdropWhile p = ((l.dropWhile p).rdropWhile p).reverse := by
  rw [rdropWhile_dropWhile_comm p l, List.rdropWhile, List.rdropWhile]

/-- A list that begins and ends with nothing to strip stays as it is. -/
theorem strip_eq_self {l : List α} (hhead : ∀ x ∈ l.head?, p x = false)
    (hlast : ∀ x ∈ l.getLast?, p x = false) : (l.dropWhile p).rdropWhile p = l := by
  cases l with
  | nil => rfl
  | cons x l =>
    rw [List.dropWhile_cons_of_neg (by simp [hhead x rfl]), List.rdropWhile_eq_self_iff]
    intro hne
    rw [hlast _ (List.getLast?_eq_some_getLast hne)]
    exact Bool.false_ne_true

/-- One that begins with something to strip does not stay as it is. -/
theorem strip_ne_strip_of_head {p r : α → Bool} {x : α} {l : List α} (hp : p x = true)
    (hr : r x = false) :
    ((x :: l).dropWhile p).rdropWhile p ≠ ((x :: l).dropWhile r).rdropWhile r := by
  intro heq
  have hhead := head?_strip r (by simp [hr] : ¬ r x = true) l
  rw [← heq] at hhead
  obtain ⟨m, hm⟩ : ∃ m, ((x :: l).dropWhile p).rdropWhile p = x :: m := by
    cases hstrip : ((x :: l).dropWhile p).rdropWhile p with
    | nil =>
      rw [hstrip] at hhead
      cases hhead
    | cons y m =>
      rw [hstrip] at hhead
      obtain rfl := Option.some.inj hhead
      exact ⟨m, rfl⟩
  have hagain := rdropWhile_dropWhile_idempotent p (x :: l)
  rw [hm] at hagain
  exact head_not_of_strip p hagain hp

theorem strip_ne_strip_of_head?_ne {p r : α → Bool} {x : α} {l : List α} (hx : x ∈ l.head?)
    (hne : p x ≠ r x) : (l.dropWhile p).rdropWhile p ≠ (l.dropWhile r).rdropWhile r := by
  cases l with
  | nil => cases hx
  | cons y l =>
    obtain rfl := Option.some.inj hx
    cases hp : p y with
    | true =>
      rw [hp] at hne
      exact strip_ne_strip_of_head hp (Bool.eq_false_iff.mpr hne.symm)
    | false =>
      rw [hp] at hne
      exact (strip_ne_strip_of_head (eq_true_of_ne_false hne.symm) hp).symm

/-- What is left after stripping begins with nothing to strip. -/
theorem not_of_mem_head?_strip {x : α} {l : List α}
    (hx : x ∈ ((l.dropWhile p).rdropWhile p).head?) : p x = false := by
  have hself := rdropWhile_dropWhile_idempotent p l
  cases hcons : (l.dropWhile p).rdropWhile p with
  | nil =>
    rw [hcons] at hx
    cases hx
  | cons y m =>
    rw [hcons] at hx hself
    obtain rfl := Option.some.inj hx
    exact Bool.eq_false_iff.mpr (head_not_of_strip p hself)

/-- Nor does it end with anything to strip. -/
theorem not_of_mem_getLast?_strip {x : α} {l : List α}
    (hx : x ∈ ((l.dropWhile p).rdropWhile p).getLast?) : p x = false := by
  rw [← List.head?_reverse, ← strip_reverse] at hx
  exact not_of_mem_head?_strip p hx

/-- Stripping two sets of characters comes to the same exactly when what is left by those in both
begins and ends with none of those in one. -/
theorem strip_eq_strip_iff {p r : α → Bool} (l : List α) :
    (l.dropWhile p).rdropWhile p = (l.dropWhile r).rdropWhile r ↔
      ∀ x, (x ∈ ((l.dropWhile fun x ↦ p x && r x).rdropWhile fun x ↦ p x && r x).head? ∨
        x ∈ ((l.dropWhile fun x ↦ p x && r x).rdropWhile fun x ↦ p x && r x).getLast?) →
          p x = r x := by
  set b : α → Bool := fun x ↦ p x && r x with hb
  set core := (l.dropWhile b).rdropWhile b with hcore
  have hp : ∀ x, b x = true → p x = true := fun x hx ↦ (Bool.and_eq_true_iff.mp hx).1
  have hr : ∀ x, b x = true → r x = true := fun x hx ↦ (Bool.and_eq_true_iff.mp hx).2
  rw [← strip_strip_of_le hp, ← strip_strip_of_le hr, ← hcore]
  constructor
  · rintro heq x (hx | hx)
    · by_contra hne
      exact strip_ne_strip_of_head?_ne hx hne heq
    · by_contra hne
      rw [← List.head?_reverse] at hx
      refine strip_ne_strip_of_head?_ne hx hne ?_
      rw [strip_reverse, strip_reverse, heq]
  · intro hends
    have hhead : ∀ x ∈ core.head?, b x = false := fun x hx ↦ not_of_mem_head?_strip b hx
    have hlast : ∀ x ∈ core.getLast?, b x = false := fun x hx ↦ not_of_mem_getLast?_strip b hx
    have hneither : ∀ x, p x = r x → b x = false → p x = false ∧ r x = false := by
      intro x hsame hnone
      rw [hb] at hnone
      dsimp only at hnone
      rw [hsame, Bool.and_self] at hnone
      exact ⟨hsame.trans hnone, hnone⟩
    rw [strip_eq_self p (fun x hx ↦ (hneither x (hends x (.inl hx)) (hhead x hx)).1)
        fun x hx ↦ (hneither x (hends x (.inr hx)) (hlast x hx)).1,
      strip_eq_self r (fun x hx ↦ (hneither x (hends x (.inl hx)) (hhead x hx)).2)
        fun x hx ↦ (hneither x (hends x (.inr hx)) (hlast x hx)).2]

/-- Stripping leaves nothing exactly of a list to be stripped whole. -/
theorem strip_eq_nil_iff (l : List α) :
    (l.dropWhile p).rdropWhile p = [] ↔ l.all p = true := by
  rw [rdropWhile_dropWhile_comm, List.dropWhile_eq_nil_iff, List.all_eq_true]
  constructor
  · intro h x hx
    by_contra hp
    obtain ⟨a, r, rfl⟩ := List.append_of_mem hx
    rw [rdropWhile_append_cons p a hp] at h
    exact hp (h x (List.mem_append_right a List.mem_cons_self))
  · intro h x hx
    exact h x ((List.rdropWhile_prefix p l).subset hx)

/-- What is not stripped is counted in what is left. -/
theorem countP_strip {r : α → Bool} (hr : ∀ x, p x = true → r x = false) (l : List α) :
    ((l.dropWhile p).rdropWhile p).countP r = l.countP r := by
  have hdrop : ∀ l : List α, (l.dropWhile p).countP r = l.countP r := by
    intro l
    induction l with
    | nil => rfl
    | cons x l ih =>
      by_cases hx : p x = true
      · rw [List.dropWhile_cons_of_pos hx, ih, List.countP_cons_of_neg (by simp [hr x hx])]
      · rw [List.dropWhile_cons_of_neg hx]
  rw [List.rdropWhile, List.countP_reverse, hdrop, List.countP_reverse, hdrop]

end Strip

theorem stripChars_eq_nil_iff (l : List Char) : stripChars l = [] ↔ l.all isSpace = true :=
  strip_eq_nil_iff isSpace l

/-- `l or None`. -/
def nonEmpty (l : List Char) : Option (List Char) := if l = [] then none else some l

theorem nonEmpty_injective : Function.Injective nonEmpty := by
  intro l r h
  rw [nonEmpty, nonEmpty] at h
  split_ifs at h with hl hr
  · rw [hl, hr]
  · exact Option.some.inj h

/-- What is stripped stays stripped. -/
theorem stripChars_idempotent (l : List Char) : stripChars (stripChars l) = stripChars l :=
  rdropWhile_dropWhile_idempotent isSpace l

@[simp] theorem strip_strip (s : String) : strip (strip s) = strip s := by
  rw [strip, strip, String.toList_ofList, stripChars_idempotent]

/-- A start that begins and ends with no space is a start of what is stripped. -/
theorem startsWith_strip {start : String} (rest : String) (hne : start.toList ≠ [])
    (hfirst : start.toList.dropWhile isSpace = start.toList)
    (hlast : start.toList.reverse.dropWhile isSpace = start.toList.reverse) :
    startsWith start (strip (start ++ rest)) = true := by
  have hdrop : (start.toList ++ rest.toList).dropWhile isSpace =
      start.toList ++ rest.toList := by
    rw [List.dropWhile_append, hfirst, if_neg]
    exact fun hempty ↦ hne (List.isEmpty_iff.mp hempty)
  rw [startsWith_iff, strip, String.toList_ofList, stripChars, String.toList_append, hdrop,
    List.rdropWhile, List.reverse_append, List.dropWhile_append, hlast]
  split_ifs
  · rewrite [List.reverse_reverse]
    exact List.prefix_refl _
  · rw [List.reverse_append, List.reverse_reverse]
    exact List.prefix_append ..

/-- `s.removesuffix(ending)`. -/
def removeSuffix (ending s : String) : String :=
  if ending.toList.isSuffixOf s.toList then .ofList (s.toList.rdrop ending.toList.length) else s

theorem removeSuffix_append (s ending : String) : removeSuffix ending (s ++ ending) = s := by
  rw [removeSuffix, String.toList_append, if_pos (List.isSuffixOf_iff_suffix.mpr
    (List.suffix_append ..)), List.rdrop_append_length, String.ofList_toList]

end TgMessenger
