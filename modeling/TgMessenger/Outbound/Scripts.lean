import TgMessenger.Data.Tally
import TgMessenger.Outbound.DialogLang

/-!
# Scripts

What `_dominant_script_lang` finds (`agent/outbound.py`): the script of at least 70 percent of the
characters that are of any, whatever their order.
-/

namespace TgMessenger.Outbound.Detection

/-- `detect_script_lang`. -/
def detectScriptLang (texts : List String) : Option String :=
  scriptLangToSupported (dominantScriptLang texts)

/-- The characters of texts. -/
def charsOf (texts : List String) : List Char := texts.flatMap String.toList

/-- How many characters there are of a script. -/
def occurrences (texts : List String) (lang : String) : ℕ :=
  (charsOf texts).countP fun c ↦ charLang c = some lang

/-- How many characters there are of any script. -/
def counted (texts : List String) : ℕ := (charsOf texts).countP fun c ↦ (charLang c).isSome

/-- Kana and Han together are Japanese if there are both. -/
def together (counts : String → ℕ) (lang : String) : ℕ :=
  if counts "ja" = 0 ∨ counts "han" = 0 then counts lang
  else if lang = "han" then 0
  else if lang = "ja" then counts "ja" + counts "han" else counts lang

/-- The script has at least 70 percent of the characters that are counted, if any are. -/
def Dominant (texts : List String) (lang : String) : Prop :=
  0 < together (occurrences texts) lang ∧
    7 * counted texts ≤ 10 * together (occurrences texts) lang

/-! ## The counters -/

theorem countScripts_eq (texts : List String) :
    countScripts texts = OrderedDict.tally charLang (charsOf texts) := by
  rw [countScripts, OrderedDict.tally, charsOf]
  congr 1
  funext counts c
  rw [OrderedDict.bump]
  cases charLang c <;> rfl

/-- The counters, with Han counted as Japanese if there are both. -/
def mergeHan (counts : OrderedDict String ℕ) : OrderedDict String ℕ :=
  match counts.get? "ja", counts.get? "han" with
  | some ja, some han => (counts.set "ja" (ja + han)).erase "han"
  | _, _ => counts

/-- The key of the largest counter, if it is at least 70 percent of all. -/
def largest (counts : OrderedDict String ℕ) : Option String :=
  match counts.items.argmax Prod.snd with
  | none => none
  | some (lang, count) => if 10 * count < 7 * counts.total then none else some lang

theorem dominantScriptLang_eq (texts : List String) :
    dominantScriptLang texts = largest (mergeHan (countScripts texts)) := rfl

variable {counts : OrderedDict String ℕ}

theorem get?_eq_none_iff_count (hpos : ∀ e ∈ counts.items, 0 < e.2) {lang : String} :
    counts.get? lang = none ↔ counts.count lang = 0 := by
  rw [OrderedDict.count]
  cases hget : counts.get? lang with
  | none => exact iff_of_true rfl rfl
  | some n =>
    have hn : 0 < n := hpos _ (OrderedDict.get?_eq_some_iff.mp hget)
    refine iff_of_false (Option.some_ne_none n) ?_
    rw [Option.getD_some]
    omega

/-- Either one of the two is missing, or both counters are moved together. -/
theorem mergeHan_cases (hpos : ∀ e ∈ counts.items, 0 < e.2) :
    ((counts.count "ja" = 0 ∨ counts.count "han" = 0) ∧ mergeHan counts = counts) ∨
      (0 < counts.count "ja" ∧ 0 < counts.count "han" ∧
        mergeHan counts =
          (counts.set "ja" (counts.count "ja" + counts.count "han")).erase "han") := by
  have hja := @get?_eq_none_iff_count counts hpos "ja"
  have hhan := @get?_eq_none_iff_count counts hpos "han"
  rw [mergeHan]
  cases hgetJa : counts.get? "ja" with
  | none => exact .inl ⟨.inl (hja.mp hgetJa), rfl⟩
  | some ja =>
    cases hgetHan : counts.get? "han" with
    | none => exact .inl ⟨.inr (hhan.mp hgetHan), rfl⟩
    | some han =>
      have hcountJa : counts.count "ja" = ja := by rw [OrderedDict.count, hgetJa]; rfl
      have hcountHan : counts.count "han" = han := by rw [OrderedDict.count, hgetHan]; rfl
      rw [hcountJa, hcountHan]
      exact .inr ⟨hpos _ (OrderedDict.get?_eq_some_iff.mp hgetJa),
        hpos _ (OrderedDict.get?_eq_some_iff.mp hgetHan), rfl⟩

theorem count_mergeHan (hpos : ∀ e ∈ counts.items, 0 < e.2) (lang : String) :
    (mergeHan counts).count lang = together counts.count lang := by
  rw [together]
  rcases mergeHan_cases hpos with ⟨hone, hmerge⟩ | ⟨hja, hhan, hmerge⟩
  · rw [hmerge, if_pos hone]
  · rw [hmerge, if_neg (by omega), OrderedDict.count_erase, OrderedDict.count_set]

theorem total_mergeHan (hpos : ∀ e ∈ counts.items, 0 < e.2) :
    (mergeHan counts).total = counts.total := by
  rcases mergeHan_cases hpos with ⟨-, hmerge⟩ | ⟨-, -, hmerge⟩
  · rw [hmerge]
  · have hset := (counts.set "ja" (counts.count "ja" + counts.count "han")).total_erase "han"
    rw [OrderedDict.count_set, if_neg (by decide), OrderedDict.total_set] at hset
    have hja := counts.total_erase "ja"
    rw [hmerge]
    omega

theorem pos_mergeHan (hpos : ∀ e ∈ counts.items, 0 < e.2) :
    ∀ e ∈ (mergeHan counts).items, 0 < e.2 := by
  rcases mergeHan_cases hpos with ⟨-, hmerge⟩ | ⟨hja, -, hmerge⟩
  · rw [hmerge]
    exact hpos
  · rw [hmerge]
    rintro ⟨lang, n⟩ he
    have hset := (OrderedDict.mem_items_erase.mp he).1
    rw [← OrderedDict.get?_eq_some_iff, OrderedDict.get?_set] at hset
    split_ifs at hset
    · have hn := Option.some.inj hset
      show 0 < n
      omega
    · exact hpos _ (OrderedDict.get?_eq_some_iff.mp hset)

/-! ## The dominant script -/

/-- With 70 percent no other counter is as large, so that the order does not matter. -/
theorem largest_eq_some_iff (hpos : ∀ e ∈ counts.items, 0 < e.2) {lang : String} :
    largest counts = some lang ↔
      0 < counts.count lang ∧ 7 * counts.total ≤ 10 * counts.count lang := by
  rw [largest]
  constructor
  · intro h
    split at h
    · cases h
    · next lang' n hmax =>
      split_ifs at h with hshare
      obtain rfl := Option.some.inj h
      have hmem := List.argmax_mem hmax
      have hcount : counts.count lang' = n := OrderedDict.count_of_mem hmem
      rw [hcount]
      exact ⟨hpos _ hmem, by omega⟩
  · rintro ⟨hcount, hshare⟩
    have hget : counts.get? lang = some (counts.count lang) := by
      rw [OrderedDict.count] at hcount ⊢
      cases hget : counts.get? lang with
      | none =>
        rw [hget] at hcount
        exact absurd hcount (Nat.lt_irrefl 0)
      | some n => rfl
    have hmem := OrderedDict.get?_eq_some_iff.mp hget
    have hmajority : counts.total < 2 * counts.count lang := by omega
    rw [OrderedDict.argmax_of_majority hmem hmajority]
    exact if_neg (by omega)

/-- The script that is found is the dominant one. -/
theorem dominantScriptLang_eq_some_iff {texts : List String} {lang : String} :
    dominantScriptLang texts = some lang ↔ Dominant texts lang := by
  have hpos := OrderedDict.pos_tally charLang (charsOf texts)
  have hcount : ∀ lang, (countScripts texts).count lang = occurrences texts lang := by
    intro lang
    rw [countScripts_eq, OrderedDict.count_tally]
    rfl
  have htotal : (countScripts texts).total = counted texts := by
    rw [countScripts_eq, OrderedDict.total_tally]
    rfl
  rw [← countScripts_eq] at hpos
  have hlargest := @largest_eq_some_iff _ (pos_mergeHan hpos) lang
  rw [count_mergeHan hpos, total_mergeHan hpos, funext hcount, htotal] at hlargest
  rw [dominantScriptLang_eq, hlargest]
  rfl

/-- Only how many characters there are of each script counts. -/
theorem dominantScriptLang_congr {texts texts' : List String}
    (h : ((charsOf texts).filter fun c ↦ (charLang c).isSome).Perm
      ((charsOf texts').filter fun c ↦ (charLang c).isSome)) :
    dominantScriptLang texts = dominantScriptLang texts' := by
  have hcounted : counted texts = counted texts' := by
    rw [counted, counted, List.countP_eq_length_filter, List.countP_eq_length_filter]
    exact h.length_eq
  have hoccurrences : occurrences texts = occurrences texts' := by
    funext lang
    have hcount := h.countP_eq fun c ↦ charLang c = some lang
    rw [List.countP_filter, List.countP_filter] at hcount
    have hkind : ∀ c, (decide (charLang c = some lang) && (charLang c).isSome) =
        decide (charLang c = some lang) := by
      intro c
      by_cases hc : charLang c = some lang
      · rw [hc, Option.isSome_some, Bool.and_true]
      · rw [decide_eq_false hc, Bool.false_and]
    rw [funext hkind] at hcount
    exact hcount
  ext lang
  rw [dominantScriptLang_eq_some_iff, dominantScriptLang_eq_some_iff, Dominant, Dominant, hcounted,
    hoccurrences]

/-! ## What does not matter -/

/-- The result depends on how many characters there are of each script only. -/
structure CountsOnly (detect : List String → Option String) : Prop where
  /-- The texts may stand in another order. -/
  texts : ∀ {texts texts'}, texts.Perm texts' → detect texts = detect texts'
  /-- So may the characters of a text. -/
  chars : ∀ {before after text text'}, text.toList.Perm text'.toList →
    detect (before ++ text :: after) = detect (before ++ text' :: after)
  /-- A text may be split in two, and two joined. -/
  join : ∀ before after text text',
    detect (before ++ (text ++ text') :: after) = detect (before ++ text :: text' :: after)
  /-- A character of no script may be put anywhere. -/
  insert : ∀ before after text text' c, charLang c = none →
    detect (before ++ (text ++ String.singleton c ++ text') :: after) =
      detect (before ++ (text ++ text') :: after)

theorem CountsOnly.comp {detect : List String → Option String} (h : CountsOnly detect)
    (f : Option String → Option String) : CountsOnly fun texts ↦ f (detect texts) where
  texts hperm := congrArg f (h.texts hperm)
  chars hperm := congrArg f (h.chars hperm)
  join before after text text' := congrArg f (h.join before after text text')
  insert before after text text' c hc := congrArg f (h.insert before after text text' c hc)

theorem charsOf_split (before after : List String) (text : String) :
    charsOf (before ++ text :: after) = charsOf before ++ (text.toList ++ charsOf after) := by
  rw [charsOf, List.flatMap_append, List.flatMap_cons]
  rfl

theorem countsOnly_dominantScriptLang : CountsOnly dominantScriptLang := by
  constructor
  case texts =>
    intro texts texts' hperm
    exact dominantScriptLang_congr ((hperm.flatMap_right _).filter _)
  case chars =>
    intro before after text text' hperm
    apply dominantScriptLang_congr
    rw [charsOf_split, charsOf_split]
    exact ((hperm.append_right _).append_left _).filter _
  case join =>
    intro before after text text'
    have hchars : charsOf (before ++ (text ++ text') :: after) =
        charsOf (before ++ text :: text' :: after) := by
      rw [charsOf_split, charsOf_split, String.toList_append, List.append_assoc]
      rfl
    apply dominantScriptLang_congr
    rw [hchars]
  case insert =>
    intro before after text text' c hc
    apply dominantScriptLang_congr
    rw [charsOf_split, charsOf_split]
    simp [String.toList_append, hc]

/-- The script that is found is that of at least 70 percent of the characters of any script, and
nothing but their numbers matters. -/
theorem script_detected :
    (∀ texts lang, dominantScriptLang texts = some lang ↔ Dominant texts lang) ∧
      CountsOnly dominantScriptLang ∧ CountsOnly detectScriptLang :=
  ⟨fun _ _ ↦ dominantScriptLang_eq_some_iff, countsOnly_dominantScriptLang,
    countsOnly_dominantScriptLang.comp scriptLangToSupported⟩

end TgMessenger.Outbound.Detection
