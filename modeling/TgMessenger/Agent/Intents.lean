import TgMessenger.Agent.Config

/-!
# Which files of intents are accepted

`load_intents` accepts a file when each of its items describes an intent and no two have one name;
otherwise it stops at the first item for which this fails, and says which one it is.
-/

namespace TgMessenger.Agent

variable {reprJson : Option Json → String} {reprStr : String → String} {path : String}

/-- The fields of an item that describes an intent. -/
structure DescribedBy (fields : List (String × Json)) (spec : IntentSpec) : Prop where
  keys : ∀ key ∈ fields.map Prod.fst, key ∈ intentKeys
  name : get "name" fields = some (.str spec.name)
  word : isIntentName spec.name = true
  free : spec.name ∉ reservedIntentNames
  description : ∃ text, get "description" fields = some (.str text) ∧ isBlank text = false ∧
    spec.description = strip text
  pipeline : pipeline? (get "pipeline" fields) = some spec.pipeline
  systemPrompt : systemPrompt? (get "system_prompt" fields) = some spec.systemPrompt

/-- An item describes an intent. -/
def Describes (item : Json) (spec : IntentSpec) : Prop :=
  ∃ fields, item = .obj fields ∧ DescribedBy fields spec

/-! ## One item -/

theorem error_ne_ok {α : Type} {e : String} {a : α} : (.error e : Except String α) ≠ .ok a := by
  rintro ⟨⟩

theorem bind_eq_ok_iff {α β : Type} {x : Except String α} {f : α → Except String β} {b : β} :
    (x >>= f) = .ok b ↔ ∃ a, x = .ok a ∧ f a = .ok b := by
  cases x with
  | error e => exact iff_of_false error_ne_ok (fun ⟨_, h, _⟩ ↦ error_ne_ok h)
  | ok a =>
    constructor
    · intro h
      exact ⟨a, rfl, h⟩
    · rintro ⟨a', ha, h⟩
      obtain rfl := Except.ok.inj ha
      exact h

theorem bind_eq_error {α β : Type} {x : Except String α} {f : α → Except String β} {e : String}
    (h : (x >>= f) = .error e) : x = .error e ∨ ∃ a, x = .ok a ∧ f a = .error e := by
  cases x with
  | error e' => exact .inl (congrArg _ (Except.error.inj h))
  | ok a => exact .inr ⟨a, rfl, h⟩

theorem loadKeys_eq_ok_iff {i : ℕ} {fields : List (String × Json)} :
    loadKeys path i fields = .ok () ↔ ∀ key ∈ fields.map Prod.fst, key ∈ intentKeys := by
  rw [loadKeys]
  split_ifs with h
  · refine iff_of_true rfl fun key hkey ↦ ?_
    have := List.filter_eq_nil_iff.mp h key hkey
    rwa [decide_eq_true_eq, not_not] at this
  · refine iff_of_false not_false fun hkeys ↦ h (List.filter_eq_nil_iff.mpr ?_)
    intro key hkey
    rw [decide_eq_true_eq, not_not]
    exact hkeys key hkey

theorem loadName_eq_ok_iff {seen : List String} {i : ℕ} {value : Option Json} {name : String} :
    loadName reprJson reprStr path seen i value = .ok name ↔
      value = some (.str name) ∧ isIntentName name = true ∧ name ∉ reservedIntentNames ∧
        name ∉ seen := by
  unfold loadName
  dsimp only
  split
  next name' =>
    by_cases hword : isIntentName name' = true
    · rw [if_neg (not_not.mpr hword)]
      split_ifs with hreserved hseen
      · exact iff_of_false not_false (by rintro ⟨⟨⟩, -, h, -⟩; exact h hreserved)
      · exact iff_of_false not_false (by rintro ⟨⟨⟩, -, -, h⟩; exact h hseen)
      · constructor
        · intro h
          obtain rfl := Except.ok.inj h
          exact ⟨rfl, hword, hreserved, hseen⟩
        · rintro ⟨⟨⟩, -⟩
          rfl
    · rw [if_pos hword]
      exact iff_of_false error_ne_ok (by rintro ⟨⟨⟩, h, -⟩; exact hword h)
  next hother =>
    refine iff_of_false error_ne_ok ?_
    rintro ⟨h, -⟩
    exact hother name h

theorem loadDescription_eq_ok_iff {i : ℕ} {value : Option Json} {description : String} :
    loadDescription path i value = .ok description ↔
      ∃ text, value = some (.str text) ∧ isBlank text = false ∧ description = strip text := by
  unfold loadDescription
  dsimp only
  split
  next text =>
    split_ifs with hblank
    · exact iff_of_false not_false (by rintro ⟨text', ⟨⟩, h, -⟩; rw [hblank] at h; cases h)
    · constructor
      · intro h
        exact ⟨text, rfl, Bool.eq_false_of_not_eq_true hblank, (Except.ok.inj h).symm⟩
      · rintro ⟨text', ⟨⟩, -, rfl⟩
        rfl
  next hother =>
    refine iff_of_false error_ne_ok ?_
    rintro ⟨text, h, -⟩
    exact hother text h

theorem loadPipeline_eq_ok_iff {i : ℕ} {value : Option Json} {pipeline : Pipeline} :
    loadPipeline reprJson path i value = .ok pipeline ↔ pipeline? value = some pipeline := by
  rw [loadPipeline]
  cases pipeline? value with
  | none => exact iff_of_false error_ne_ok (Option.some_ne_none _ ·.symm)
  | some p =>
    exact ⟨fun h ↦ congrArg some (Except.ok.inj h), fun h ↦ congrArg _ (Option.some.inj h)⟩

theorem loadSystemPrompt_eq_ok_iff {i : ℕ} {value : Option Json} {systemPrompt : Option String} :
    loadSystemPrompt path i value = .ok systemPrompt ↔ systemPrompt? value = some systemPrompt := by
  rw [loadSystemPrompt]
  cases systemPrompt? value with
  | none => exact iff_of_false error_ne_ok (Option.some_ne_none _ ·.symm)
  | some p =>
    exact ⟨fun h ↦ congrArg some (Except.ok.inj h), fun h ↦ congrArg _ (Option.some.inj h)⟩

/-- An item is accepted when it describes an intent with a new name. -/
theorem loadIntent_eq_ok_iff {seen : List String} {i : ℕ} {item : Json} {spec : IntentSpec} :
    loadIntent reprJson reprStr path seen i item = .ok spec ↔
      Describes item spec ∧ spec.name ∉ seen := by
  constructor
  · intro h
    unfold loadIntent at h
    split at h
    next fields =>
      obtain ⟨_, hkeys, h⟩ := bind_eq_ok_iff.mp h
      obtain ⟨name, hname, h⟩ := bind_eq_ok_iff.mp h
      obtain ⟨description, hdescription, h⟩ := bind_eq_ok_iff.mp h
      obtain ⟨pipeline, hpipeline, h⟩ := bind_eq_ok_iff.mp h
      obtain ⟨systemPrompt, hprompt, h⟩ := bind_eq_ok_iff.mp h
      obtain rfl := Except.ok.inj h
      obtain ⟨hvalue, hword, hfree, hseen⟩ := loadName_eq_ok_iff.mp hname
      exact ⟨⟨fields, rfl, loadKeys_eq_ok_iff.mp hkeys, hvalue, hword, hfree,
        loadDescription_eq_ok_iff.mp hdescription, loadPipeline_eq_ok_iff.mp hpipeline,
        loadSystemPrompt_eq_ok_iff.mp hprompt⟩, hseen⟩
    next => cases h
  · rintro ⟨⟨fields, rfl, h⟩, hseen⟩
    refine bind_eq_ok_iff.mpr ⟨(), loadKeys_eq_ok_iff.mpr h.keys, ?_⟩
    refine bind_eq_ok_iff.mpr ⟨_, loadName_eq_ok_iff.mpr ⟨h.name, h.word, h.free, hseen⟩, ?_⟩
    refine bind_eq_ok_iff.mpr ⟨_, loadDescription_eq_ok_iff.mpr h.description, ?_⟩
    refine bind_eq_ok_iff.mpr ⟨_, loadPipeline_eq_ok_iff.mpr h.pipeline, ?_⟩
    exact bind_eq_ok_iff.mpr ⟨_, loadSystemPrompt_eq_ok_iff.mpr h.systemPrompt, rfl⟩

/-- A message about one item. -/
def AboutPlace (path : String) (i : ℕ) (message : String) : Prop :=
  ∃ why, message = place path i ++ why

theorem aboutPlace_loadKeys {i : ℕ} {fields : List (String × Json)} {message : String}
    (h : loadKeys path i fields = .error message) : AboutPlace path i message := by
  rw [loadKeys] at h
  split_ifs at h
  obtain rfl := Except.error.inj h
  exact ⟨_, rfl⟩

theorem aboutPlace_loadName {seen : List String} {i : ℕ} {value : Option Json} {message : String}
    (h : loadName reprJson reprStr path seen i value = .error message) :
    AboutPlace path i message := by
  unfold loadName at h
  dsimp only at h
  split at h
  · split_ifs at h
    · obtain rfl := Except.error.inj h
      exact ⟨_, rfl⟩
    · obtain rfl := Except.error.inj h
      exact ⟨_, rfl⟩
    · obtain rfl := Except.error.inj h
      exact ⟨_, rfl⟩
  · obtain rfl := Except.error.inj h
    exact ⟨_, rfl⟩

theorem aboutPlace_loadDescription {i : ℕ} {value : Option Json} {message : String}
    (h : loadDescription path i value = .error message) : AboutPlace path i message := by
  unfold loadDescription at h
  dsimp only at h
  split at h
  · split_ifs at h
    obtain rfl := Except.error.inj h
    exact ⟨_, rfl⟩
  · obtain rfl := Except.error.inj h
    exact ⟨_, rfl⟩

theorem aboutPlace_loadPipeline {i : ℕ} {value : Option Json} {message : String}
    (h : loadPipeline reprJson path i value = .error message) : AboutPlace path i message := by
  rw [loadPipeline] at h
  split at h
  · cases h
  · obtain rfl := Except.error.inj h
    exact ⟨_, rfl⟩

theorem aboutPlace_loadSystemPrompt {i : ℕ} {value : Option Json} {message : String}
    (h : loadSystemPrompt path i value = .error message) : AboutPlace path i message := by
  rw [loadSystemPrompt] at h
  split at h
  · cases h
  · obtain rfl := Except.error.inj h
    exact ⟨_, rfl⟩

/-- The error of an item says which one it is. -/
theorem aboutPlace_loadIntent {seen : List String} {i : ℕ} {item : Json} {message : String}
    (h : loadIntent reprJson reprStr path seen i item = .error message) :
    AboutPlace path i message := by
  unfold loadIntent at h
  split at h
  next fields =>
    obtain h | ⟨-, -, h⟩ := bind_eq_error h
    · exact aboutPlace_loadKeys h
    obtain h | ⟨name, -, h⟩ := bind_eq_error h
    · exact aboutPlace_loadName h
    obtain h | ⟨description, -, h⟩ := bind_eq_error h
    · exact aboutPlace_loadDescription h
    obtain h | ⟨pipeline, -, h⟩ := bind_eq_error h
    · exact aboutPlace_loadPipeline h
    obtain h | ⟨systemPrompt, -, h⟩ := bind_eq_error h
    · exact aboutPlace_loadSystemPrompt h
    · cases h
  next =>
    obtain rfl := Except.error.inj h
    exact ⟨_, rfl⟩

/-! ## The loop -/

/-- Items that describe intents with names that are new and distinct. -/
structure Accepted (seen : List String) (items : List Json) (specs : List IntentSpec) : Prop where
  described : List.Forall₂ Describes items specs
  distinct : (specs.map IntentSpec.name).Nodup
  fresh : ∀ spec ∈ specs, spec.name ∉ seen

theorem accepted_nil {seen : List String} {specs : List IntentSpec} :
    Accepted seen [] specs ↔ specs = [] := by
  constructor
  · intro h
    exact List.forall₂_nil_left_iff.mp h.described
  · rintro rfl
    exact ⟨.nil, List.nodup_nil, fun spec hspec ↦ absurd hspec List.not_mem_nil⟩

/-- The first item, and the others with its name taken. -/
theorem accepted_cons {seen : List String} {item : Json} {items : List Json}
    {specs : List IntentSpec} :
    Accepted seen (item :: items) specs ↔ ∃ spec specs', specs = spec :: specs' ∧
      (Describes item spec ∧ spec.name ∉ seen) ∧ Accepted (seen ++ [spec.name]) items specs' := by
  constructor
  · rintro ⟨hdescribed, hdistinct, hfresh⟩
    obtain ⟨spec, specs', hdescribes, hrest, rfl⟩ := List.forall₂_cons_left_iff.mp hdescribed
    obtain ⟨hnot, hrest'⟩ := List.nodup_cons.mp hdistinct
    refine ⟨spec, specs', rfl, ⟨hdescribes, hfresh spec List.mem_cons_self⟩, hrest, hrest', ?_⟩
    intro spec' hspec' hmem
    obtain hmem | hmem := List.mem_append.mp hmem
    · exact hfresh spec' (List.mem_cons_of_mem _ hspec') hmem
    · exact hnot (List.mem_singleton.mp hmem ▸ List.mem_map_of_mem hspec')
  · rintro ⟨spec, specs', rfl, ⟨hdescribes, hnew⟩, ⟨hdescribed, hdistinct, hfresh⟩⟩
    refine ⟨.cons hdescribes hdescribed, List.nodup_cons.mpr ⟨?_, hdistinct⟩, ?_⟩
    · intro hmem
      obtain ⟨spec', hspec', heq⟩ := List.mem_map.mp hmem
      exact hfresh spec' hspec' (List.mem_append_right _ (List.mem_singleton.mpr heq))
    · intro spec' hspec' hmem
      obtain rfl | hspec' := List.mem_cons.mp hspec'
      · exact hnew hmem
      · exact hfresh spec' hspec' (List.mem_append_left _ hmem)

theorem loadLoop_eq_ok_iff {i : ℕ} {specs : List IntentSpec} {items : List Json}
    {specs' : List IntentSpec} :
    loadLoop reprJson reprStr path i specs items = .ok specs' ↔
      ∃ new, specs' = specs ++ new ∧ Accepted (specs.map IntentSpec.name) items new := by
  induction items generalizing i specs with
  | nil =>
    rw [loadLoop]
    constructor
    · intro h
      exact ⟨[], by rw [List.append_nil, Except.ok.inj h], accepted_nil.mpr rfl⟩
    · rintro ⟨new, rfl, hnew⟩
      rw [accepted_nil.mp hnew, List.append_nil]
  | cons item items ih =>
    rw [loadLoop]
    cases hload : loadIntent reprJson reprStr path (specs.map IntentSpec.name) i item with
    | ok spec =>
      have hspec := loadIntent_eq_ok_iff.mp hload
      dsimp only
      rw [ih, List.map_append, List.map_singleton]
      constructor
      · rintro ⟨new, rfl, hnew⟩
        exact ⟨spec :: new, List.append_assoc .., accepted_cons.mpr ⟨spec, new, rfl, hspec, hnew⟩⟩
      · rintro ⟨new, rfl, hnew⟩
        obtain ⟨spec', new', rfl, hspec', hnew'⟩ := accepted_cons.mp hnew
        -- an item has one reading
        obtain rfl : spec = spec' :=
          Except.ok.inj (hload.symm.trans (loadIntent_eq_ok_iff.mpr hspec'))
        exact ⟨new', List.append_cons .., hnew'⟩
    | error message =>
      refine iff_of_false error_ne_ok ?_
      rintro ⟨new, rfl, hnew⟩
      obtain ⟨spec, new', rfl, hspec, -⟩ := accepted_cons.mp hnew
      rw [loadIntent_eq_ok_iff.mpr hspec] at hload
      cases hload

/-- The loop stops at the first item that is not accepted. -/
theorem loadLoop_eq_error {i : ℕ} {specs : List IntentSpec} {items : List Json} {message : String}
    (h : loadLoop reprJson reprStr path i specs items = .error message) :
    ∃ before item after new, items = before ++ item :: after ∧
      Accepted (specs.map IntentSpec.name) before new ∧
      (∀ spec, Describes item spec → spec.name ∈ (specs ++ new).map IntentSpec.name) ∧
      AboutPlace path (i + before.length) message := by
  induction items generalizing i specs with
  | nil => cases h
  | cons item items ih =>
    rw [loadLoop] at h
    cases hload : loadIntent reprJson reprStr path (specs.map IntentSpec.name) i item with
    | ok spec =>
      rw [hload] at h
      obtain ⟨before, item', after, new, rfl, hnew, hitem, hplace⟩ := ih h
      rw [List.map_append] at hnew
      refine ⟨item :: before, item', after, spec :: new, rfl,
        accepted_cons.mpr ⟨spec, new, rfl, loadIntent_eq_ok_iff.mp hload, hnew⟩, ?_, ?_⟩
      · rwa [List.append_assoc, List.singleton_append] at hitem
      · rwa [List.length_cons, Nat.add_comm before.length, ← Nat.add_assoc]
    | error message' =>
      rw [hload] at h
      obtain rfl := Except.error.inj h
      refine ⟨[], item, items, [], rfl, accepted_nil.mpr rfl, ?_, aboutPlace_loadIntent hload⟩
      intro spec hspec
      by_contra hnew
      rw [List.append_nil] at hnew
      rw [loadIntent_eq_ok_iff.mpr ⟨hspec, hnew⟩] at hload
      cases hload

/-! ## The file -/

theorem loadIntents_eq_ok_iff (data : Json) (specs : List IntentSpec) :
    loadIntents reprJson reprStr path (.json data) = .ok specs ↔
      ∃ items, data.field? "intents" = some (.arr items) ∧ List.Forall₂ Describes items specs ∧
        (specs.map IntentSpec.name).Nodup := by
  unfold loadIntents
  dsimp only
  split
  next items hitems =>
    rw [loadLoop_eq_ok_iff]
    constructor
    · rintro ⟨new, rfl, hnew⟩
      exact ⟨items, hitems, hnew.described, hnew.distinct⟩
    · rintro ⟨items', hitems', hdescribed, hdistinct⟩
      obtain rfl := Json.arr.inj (Option.some.inj (hitems.symm.trans hitems'))
      exact ⟨specs, rfl, hdescribed, hdistinct, fun spec _ ↦ List.not_mem_nil⟩
  next hother =>
    refine iff_of_false error_ne_ok ?_
    rintro ⟨items, hitems, -⟩
    exact hother items hitems

/-- `load_intents` accepts the files whose items describe intents with distinct names, and gives
them in their order.  Of another list it names the first item that describes none, or one with a
name that an item before it has. -/
theorem loadIntents_spec (reprJson : Option Json → String) (reprStr : String → String)
    (path : String) (data : Json) :
    (∀ specs, loadIntents reprJson reprStr path (.json data) = .ok specs ↔
      ∃ items, data.field? "intents" = some (.arr items) ∧ List.Forall₂ Describes items specs ∧
        (specs.map IntentSpec.name).Nodup) ∧
    ∀ items message, data.field? "intents" = some (.arr items) →
      loadIntents reprJson reprStr path (.json data) = .error message →
      ∃ before item after specs, items = before ++ item :: after ∧
        List.Forall₂ Describes before specs ∧ (specs.map IntentSpec.name).Nodup ∧
        (∀ spec, Describes item spec → spec.name ∈ specs.map IntentSpec.name) ∧
        AboutPlace path before.length message := by
  refine ⟨loadIntents_eq_ok_iff data, fun items message hitems h ↦ ?_⟩
  unfold loadIntents at h
  dsimp only at h
  rw [hitems] at h
  obtain ⟨before, item, after, new, rfl, hnew, hitem, hplace⟩ := loadLoop_eq_error h
  rw [Nat.zero_add] at hplace
  exact ⟨before, item, after, new, rfl, hnew.described, hnew.distinct, hitem, hplace⟩

end TgMessenger.Agent
