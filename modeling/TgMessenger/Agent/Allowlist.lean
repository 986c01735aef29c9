import TgMessenger.Agent.Histories
import TgMessenger.Agent.Intents

/-!
# Who is answered

The settings that are accepted, and the senders that an agent with them answers.
-/

namespace TgMessenger.Agent

variable {host : Host}

/-! ## The settings -/

theorem require_eq_ok_iff {p : Prop} [Decidable p] {message : String} :
    require p message = .ok () ↔ p := by
  rw [require]
  split_ifs with h
  · exact iff_of_true rfl h
  · exact iff_of_false not_false h

theorem colon_of_optionalModel {key examples : String} {model : Option String}
    (h : optionalModel host key examples = .ok model) : ∀ m ∈ model, ':' ∈ m.toList := by
  rw [optionalModel] at h
  split_ifs at h with hempty hcolon
  · obtain rfl := Except.ok.inj h
    rintro m ⟨⟩
  · obtain rfl := Except.ok.inj h
    rintro m ⟨⟩
    exact hcolon

theorem map_eq_ok {α β : Type} {x : Except String α} {f : α → β} {b : β}
    (h : x.map f = .ok b) : ∃ a, x = .ok a ∧ f a = b := by
  cases x with
  | error e => cases h
  | ok a => exact ⟨a, rfl, Except.ok.inj h⟩

/-- What the entries stand for. -/
structure Entered (host : Host) (entries : List String) (ids : List ℤ) (names : List String) :
    Prop where
  ids : ∀ id, id ∈ ids ↔ ∃ entry ∈ entries, isNumber host entry = true ∧
    parseInt host.decimal entry.toList = some id
  names : ∀ name, name ∈ names ↔ ∃ entry ∈ entries, isNumber host entry = false ∧
    username host entry = name

theorem readEntries_spec {entries : List String} {ids : List ℤ} {names : List String}
    (h : readEntries host entries = .ok (ids, names)) : Entered host entries ids names := by
  induction entries generalizing ids names with
  | nil =>
    obtain ⟨rfl, rfl⟩ := Prod.mk.inj (Except.ok.inj h)
    refine ⟨fun id ↦ ?_, fun name ↦ ?_⟩
    · exact iff_of_false List.not_mem_nil (fun ⟨_, hmem, _⟩ ↦ List.not_mem_nil hmem)
    · exact iff_of_false List.not_mem_nil (fun ⟨_, hmem, _⟩ ↦ List.not_mem_nil hmem)
  | cons entry entries ih =>
    rw [readEntries] at h
    split_ifs at h with hnumber
    · split at h
      next id hparse =>
        obtain ⟨⟨ids', names'⟩, hrest, heq⟩ := map_eq_ok h
        obtain ⟨rfl, rfl⟩ := Prod.mk.inj heq
        obtain ⟨hids, hnames⟩ := ih hrest
        refine ⟨fun id' ↦ ?_, fun name ↦ ?_⟩
        · rw [List.mem_cons, hids, List.exists_mem_cons_iff, hparse, Option.some.injEq]
          exact or_congr ⟨fun heq ↦ ⟨hnumber, heq.symm⟩, fun heq ↦ heq.2.symm⟩ Iff.rfl
        · rw [hnames, List.exists_mem_cons_iff, hnumber]
          exact (or_iff_right (fun hfalse ↦ Bool.noConfusion hfalse.1)).symm
      next => cases h
    · rw [Bool.not_eq_true] at hnumber
      obtain ⟨⟨ids', names'⟩, hrest, heq⟩ := map_eq_ok h
      obtain ⟨rfl, rfl⟩ := Prod.mk.inj heq
      obtain ⟨hids, hnames⟩ := ih hrest
      refine ⟨fun id' ↦ ?_, fun name ↦ ?_⟩
      · rw [hids, List.exists_mem_cons_iff, hnumber]
        exact (or_iff_right (fun hfalse ↦ Bool.noConfusion hfalse.1)).symm
      · rw [List.mem_cons, hnames, List.exists_mem_cons_iff]
        exact or_congr ⟨fun heq ↦ ⟨hnumber, heq.symm⟩, fun heq ↦ heq.2.symm⟩ Iff.rfl

/-- The settings that `from_env` gives. -/
structure AgentConfig.Valid (host : Host) (requireAllowlist : Bool) (cfg : AgentConfig) : Prop where
  model : ':' ∈ cfg.model.toList
  everyone : cfg.allowAll = true ↔ entries (setting host "TG_AGENT_ALLOWLIST") = ["*"]
  /-- The star stands alone. -/
  star : "*" ∈ entries (setting host "TG_AGENT_ALLOWLIST") → cfg.allowAll = true
  listed : cfg.allowAll = false →
    Entered host (entries (setting host "TG_AGENT_ALLOWLIST")) cfg.allowIds cfg.allowUsernames
  someone : requireAllowlist = true →
    cfg.allowAll = true ∨ cfg.allowIds ≠ [] ∨ cfg.allowUsernames ≠ []
  search : cfg.searchProvider ∈ searchProviders
  visionModel : ∀ m ∈ cfg.visionModel, ':' ∈ m.toList
  suggestModel : ∀ m ∈ cfg.suggestModel, ':' ∈ m.toList
  history : 1 ≤ cfg.suggestHistoryLimit
  distinct : (cfg.intents.map IntentSpec.name).Nodup
  free : ∀ spec ∈ cfg.intents, isIntentName spec.name = true ∧ spec.name ∉ reservedIntentNames

theorem names_of_described {items : List Json} {specs : List IntentSpec}
    (h : List.Forall₂ Describes items specs) :
    ∀ spec ∈ specs, isIntentName spec.name = true ∧ spec.name ∉ reservedIntentNames := by
  induction h with
  | nil => exact fun spec hspec ↦ absurd hspec List.not_mem_nil
  | cons hdescribes _ ih =>
    intro spec hspec
    obtain rfl | hspec := List.mem_cons.mp hspec
    · obtain ⟨fields, -, hfields⟩ := hdescribes
      exact ⟨hfields.word, hfields.free⟩
    · exact ih spec hspec

theorem names_of_loadIntents {reprJson : Option Json → String} {reprStr : String → String}
    {path : String} {file : FileText} {specs : List IntentSpec}
    (h : loadIntents reprJson reprStr path file = .ok specs) :
    (specs.map IntentSpec.name).Nodup ∧
      ∀ spec ∈ specs, isIntentName spec.name = true ∧ spec.name ∉ reservedIntentNames := by
  cases file with
  | missing => cases h
  | unreadable exc => cases h
  | undecodable exc => cases h
  | invalid exc => cases h
  | json data =>
    obtain ⟨items, -, hdescribed, hdistinct⟩ := (loadIntents_eq_ok_iff data specs).mp h
    exact ⟨hdistinct, names_of_described hdescribed⟩

theorem names_of_configuredIntents {specs : List IntentSpec}
    (h : configuredIntents host = .ok specs) :
    (specs.map IntentSpec.name).Nodup ∧
      ∀ spec ∈ specs, isIntentName spec.name = true ∧ spec.name ∉ reservedIntentNames := by
  unfold configuredIntents at h
  dsimp only at h
  split_ifs at h
  · exact names_of_loadIntents h
  · exact names_of_loadIntents h
  · obtain rfl := Except.ok.inj h
    exact ⟨List.nodup_nil, fun spec hspec ↦ absurd hspec List.not_mem_nil⟩

theorem isEveryone_iff {entries : List String} : isEveryone entries = true ↔ entries = ["*"] :=
  decide_eq_true_iff

theorem mem_star_iff {entries : List String} (h : ¬ ("*" ∈ entries ∧ 1 < entries.length)) :
    "*" ∈ entries ↔ entries = ["*"] := by
  constructor
  · intro hmem
    cases entries with
    | nil => cases hmem
    | cons entry rest =>
      cases rest with
      | nil => rw [List.mem_singleton.mp hmem]
      | cons entry' rest => exact absurd ⟨hmem, Nat.succ_lt_succ (Nat.succ_pos _)⟩ h
  · rintro rfl
    exact List.mem_singleton_self _

theorem Entered.ne_nil {entries : List String} {ids : List ℤ} {names : List String}
    (h : readEntries host entries = .ok (ids, names)) (hne : entries ≠ []) :
    ids ≠ [] ∨ names ≠ [] := by
  cases entries with
  | nil => exact absurd rfl hne
  | cons entry entries =>
    have hentered := readEntries_spec h
    by_cases hnumber : isNumber host entry = true
    · rw [readEntries, if_pos hnumber] at h
      split at h
      next id hparse =>
        have hmem := (hentered.ids id).mpr ⟨entry, List.mem_cons_self, hnumber, hparse⟩
        exact .inl (List.ne_nil_of_mem hmem)
      next => cases h
    · rw [Bool.not_eq_true] at hnumber
      have hmem := (hentered.names _).mpr ⟨entry, List.mem_cons_self, hnumber, rfl⟩
      exact .inr (List.ne_nil_of_mem hmem)

/-- Settings that are accepted are in order. -/
theorem valid_of_fromEnv {requireAllowlist : Bool} {cfg : AgentConfig}
    (h : AgentConfig.fromEnv host requireAllowlist = .ok cfg) :
    cfg.Valid host requireAllowlist := by
  unfold AgentConfig.fromEnv at h
  dsimp only at h
  obtain ⟨_, -, h⟩ := bind_eq_ok_iff.mp h
  obtain ⟨_, hmodel, h⟩ := bind_eq_ok_iff.mp h
  obtain ⟨_, hsome, h⟩ := bind_eq_ok_iff.mp h
  obtain ⟨_, hstar, h⟩ := bind_eq_ok_iff.mp h
  obtain ⟨⟨ids, names⟩, hentries, h⟩ := bind_eq_ok_iff.mp h
  obtain ⟨_, hsearch, h⟩ := bind_eq_ok_iff.mp h
  obtain ⟨visionModel, hvision, h⟩ := bind_eq_ok_iff.mp h
  obtain ⟨suggestModel, hsuggest, h⟩ := bind_eq_ok_iff.mp h
  obtain ⟨limit, -, h⟩ := bind_eq_ok_iff.mp h
  obtain ⟨_, hlimit, h⟩ := bind_eq_ok_iff.mp h
  obtain ⟨intents, hintents, h⟩ := bind_eq_ok_iff.mp h
  have heq := Except.ok.inj h
  rw [require_eq_ok_iff] at hmodel hsome hstar hsearch hlimit
  obtain ⟨hdistinct, hfree⟩ := names_of_configuredIntents hintents
  generalize hes : entries (setting host "TG_AGENT_ALLOWLIST") = es at *
  have hall : cfg.allowAll = isEveryone es := (congrArg AgentConfig.allowAll heq).symm
  have hids : cfg.allowIds = ids := (congrArg AgentConfig.allowIds heq).symm
  have hnames : cfg.allowUsernames = names := (congrArg AgentConfig.allowUsernames heq).symm
  have hread (hevery : cfg.allowAll = false) : readEntries host es = .ok (ids, names) := by
    rw [hall] at hevery
    rw [readAllowlist, if_neg (Bool.eq_false_iff.mp hevery)] at hentries
    exact hentries
  refine ⟨?_, ?_, ?_, ?_, ?_, ?_, ?_, ?_, ?_, ?_, ?_⟩
  · rw [← heq]
    exact hmodel
  · rw [hall, hes, isEveryone_iff]
  · rw [hall, hes, isEveryone_iff]
    exact (mem_star_iff hstar).mp
  · rw [hids, hnames, hes]
    exact fun hevery ↦ readEntries_spec (hread hevery)
  · intro hrequire
    cases hevery : cfg.allowAll with
    | true => exact .inl rfl
    | false =>
      rw [hids, hnames]
      exact .inr (Entered.ne_nil (hread hevery) fun hnil ↦ hsome ⟨hnil, hrequire⟩)
  · rw [← heq]
    exact hsearch
  · rw [← heq]
    exact colon_of_optionalModel hvision
  · rw [← heq]
    exact colon_of_optionalModel hsuggest
  · rw [← heq]
    exact hlimit
  · rw [← heq]
    exact hdistinct
  · rw [← heq]
    exact hfree

/-! ## The senders -/

/-- A sender that an entry of the allowlist names: everyone, by the id, or by the name of the last
of the dialogs that has it. -/
def Listed (host : Host) (dialogs : List Dialog) (sender : ℤ) : Prop :=
  ∃ entry ∈ entries (setting host "TG_AGENT_ALLOWLIST"), entry = "*" ∨
    (isNumber host entry = true ∧ parseInt host.decimal entry.toList = some sender) ∨
    (isNumber host entry = false ∧
      (byUsername host.lower dialogs).lookup (username host entry) = some sender)

/-- What a message is answered for: a photo, or a text; never a voice message. -/
def Answerable (message : Message) : Prop :=
  message.media.map MediaRef.kind = some .photo ∨
    (message.media.map MediaRef.kind ≠ some .voice ∧ ∃ text ∈ message.text, text ≠ "")

theorem mem_allowed_iff {requireAllowlist : Bool} {cfg : AgentConfig}
    (hcfg : cfg.Valid host requireAllowlist) {dialogs : List Dialog} {sender : ℤ} :
    (∀ allowed, prepare host cfg dialogs = some allowed → sender ∈ allowed) ↔
      Listed host dialogs sender := by
  rw [prepare]
  cases hall : cfg.allowAll with
  | true =>
    refine iff_of_true ?_ ⟨"*", ?_, .inl rfl⟩
    · rintro allowed ⟨⟩
    · rw [hcfg.everyone.mp hall]
      exact List.mem_singleton_self _
  | false =>
    have hentered := hcfg.listed hall
    have hstar : ∀ entry ∈ entries (setting host "TG_AGENT_ALLOWLIST"), entry ≠ "*" := by
      rintro entry hmem rfl
      rw [hcfg.star hmem] at hall
      cases hall
    rw [if_neg Bool.false_ne_true]
    have hsome : (∀ allowed, some (resolveAllowedIds host cfg dialogs) = some allowed →
        sender ∈ allowed) ↔ sender ∈ resolveAllowedIds host cfg dialogs :=
      ⟨fun h ↦ h _ rfl, fun h allowed heq ↦ Option.some.inj heq ▸ h⟩
    rw [hsome, resolveAllowedIds, List.mem_append, List.mem_filterMap, hentered.ids]
    constructor
    · rintro (⟨entry, hmem, hnumber, hparse⟩ | ⟨name, hname, hlookup⟩)
      · exact ⟨entry, hmem, .inr (.inl ⟨hnumber, hparse⟩)⟩
      · obtain ⟨entry, hmem, hnumber, rfl⟩ := (hentered.names name).mp hname
        exact ⟨entry, hmem, .inr (.inr ⟨hnumber, hlookup⟩)⟩
    · rintro ⟨entry, hmem, hentry | ⟨hnumber, hparse⟩ | ⟨hnumber, hlookup⟩⟩
      · exact absurd hentry (hstar entry hmem)
      · exact .inl ⟨entry, hmem, hnumber, hparse⟩
      · exact .inr ⟨_, (hentered.names _).mpr ⟨entry, hmem, hnumber, rfl⟩, hlookup⟩

/-- What is answered. -/
structure Heeded (host : Host) (dialogs : List Dialog) (ev : IncomingEvent) : Prop where
  incoming : ev.message.out = false
  listed : Listed host dialogs ev.message.senderId
  answerable : Answerable ev.message

instance (dialogs : List Dialog) (sender : ℤ) : Decidable (Listed host dialogs sender) :=
  inferInstanceAs (Decidable (∃ entry ∈ entries (setting host "TG_AGENT_ALLOWLIST"), _))

instance (message : Message) : Decidable (Answerable message) :=
  inferInstanceAs (Decidable (_ ∨ (_ ∧ ∃ text ∈ message.text, text ≠ "")))

instance (dialogs : List Dialog) (ev : IncomingEvent) : Decidable (Heeded host dialogs ev) :=
  decidable_of_iff (ev.message.out = false ∧ Listed host dialogs ev.message.senderId ∧
    Answerable ev.message)
    ⟨fun ⟨hout, hlisted, hanswerable⟩ ↦ ⟨hout, hlisted, hanswerable⟩,
      fun h ↦ ⟨h.incoming, h.listed, h.answerable⟩⟩

namespace AgentRunner

variable {κ : Type} {r : AgentRunner κ} {ev : IncomingEvent} {cfg : AgentConfig}
  {dialogs : List Dialog}

theorem answers_eq_true_iff :
    r.answers ev = true ↔ ev.message.out = false ∧
      (∀ allowed, r.allowed = some allowed → ev.message.senderId ∈ allowed) ∧
      Answerable ev.message := by
  have htext : ev.message.text.any (· ≠ "") = true ↔ ∃ text ∈ ev.message.text, text ≠ "" := by
    rw [Option.any_eq_true]
    exact exists_congr fun text ↦ and_congr Iff.rfl decide_eq_true_iff
  rw [answers, Bool.and_eq_true, Bool.and_eq_true, Bool.not_eq_true', and_assoc]
  refine and_congr Iff.rfl (and_congr ?_ ?_)
  · cases r.allowed with
    | none => exact iff_of_true rfl (by rintro allowed ⟨⟩)
    | some allowed =>
      constructor
      · rintro hmem _ ⟨⟩
        exact decide_eq_true_iff.mp hmem
      · exact fun h ↦ decide_eq_true (h allowed rfl)
  · rw [Answerable, ← htext]
    generalize ev.message.media.map MediaRef.kind = kind
    split
    · simp
    · simp
    next hvoice hphoto =>
      exact ⟨fun h ↦ .inr ⟨hvoice, h⟩, fun h ↦ (h.resolve_left hphoto).2⟩

theorem answers_iff_heeded {requireAllowlist : Bool} (hcfg : cfg.Valid host requireAllowlist)
    (hallowed : r.allowed = prepare host cfg dialogs) :
    r.answers ev = true ↔ Heeded host dialogs ev := by
  rw [answers_eq_true_iff, hallowed, mem_allowed_iff hcfg]
  exact ⟨fun ⟨hout, hlisted, hanswerable⟩ ↦ ⟨hout, hlisted, hanswerable⟩,
    fun h ↦ ⟨h.incoming, h.listed, h.answerable⟩⟩

/-- The events that do not pass the filters could as well be left out. -/
theorem run_filter (r : AgentRunner κ) (events : List (IncomingEvent × Outside))
    (memory : Memory κ) :
    (r.run (events.filter fun event ↦ r.answers event.1) memory).1 =
        (r.run events memory).1.filter (fun entry ↦ r.answers entry.1) ∧
      (r.run (events.filter fun event ↦ r.answers event.1) memory).2 = (r.run events memory).2 := by
  induction events generalizing memory with
  | nil => exact ⟨rfl, rfl⟩
  | cons event events ih =>
    obtain ⟨ev, out⟩ := event
    cases hanswers : r.answers ev with
    | true =>
      obtain ⟨htrace, hmemory⟩ := ih (r.handleEvent ev out memory).2
      have hevents : ((ev, out) :: events).filter (fun event ↦ r.answers event.1) =
          (ev, out) :: events.filter fun event ↦ r.answers event.1 :=
        List.filter_cons_of_pos hanswers
      rw [hevents, run_cons, run_cons, htrace, hmemory]
      refine ⟨?_, rfl⟩
      rw [List.filter_cons, if_pos hanswers]
    | false =>
      obtain ⟨htrace, hmemory⟩ := ih memory
      have hevents : ((ev, out) :: events).filter (fun event ↦ r.answers event.1) =
          events.filter fun event ↦ r.answers event.1 :=
        List.filter_cons_of_neg (Bool.eq_false_iff.mp hanswers)
      rw [hevents, run_cons, handleEvent_of_not_answers out memory hanswers, htrace, hmemory]
      refine ⟨?_, rfl⟩
      rw [List.filter_cons, if_neg (Bool.eq_false_iff.mp hanswers)]

/-- Something is done for an event exactly when it passes the filters. -/
theorem effects_ne_nil_iff (r : AgentRunner κ) (events : List (IncomingEvent × Outside))
    (memory : Memory κ) :
    (r.run events memory).1.map Prod.fst = events.map Prod.fst ∧
      ∀ entry ∈ (r.run events memory).1,
        (.typing entry.1.dialogId ∈ entry.2 ↔ r.answers entry.1 = true) ∧
        (entry.2 = [] ↔ r.answers entry.1 = false) := by
  induction events generalizing memory with
  | nil => exact ⟨rfl, fun entry hentry ↦ absurd hentry List.not_mem_nil⟩
  | cons event events ih =>
    obtain ⟨ev, out⟩ := event
    obtain ⟨hevents, heffects⟩ := ih (r.handleEvent ev out memory).2
    rw [run_cons]
    refine ⟨congrArg (ev :: ·) hevents, fun entry hentry ↦ ?_⟩
    obtain rfl | hentry := List.mem_cons.mp hentry
    · cases hanswers : r.answers ev with
      | true =>
        have hmem := typing_mem_handleEvent out memory hanswers
        exact ⟨iff_of_true hmem rfl, iff_of_false (List.ne_nil_of_mem hmem) Bool.noConfusion⟩
      | false =>
        have hnil := congrArg Prod.fst (handleEvent_of_not_answers out memory hanswers)
        refine ⟨iff_of_false ?_ Bool.false_ne_true, iff_of_true hnil rfl⟩
        rw [hnil]
        exact List.not_mem_nil
    · exact heffects entry hentry

/-- Settings that are accepted are in order, and an agent with them works on every event that comes
in from a sender on the list and that can be answered, on nothing else, and as if there had been
nothing else. -/
theorem run_heeded {requireAllowlist : Bool}
    (hcfg : AgentConfig.fromEnv host requireAllowlist = .ok cfg)
    (hallowed : r.allowed = prepare host cfg dialogs) (events : List (IncomingEvent × Outside))
    (memory : Memory κ) :
    cfg.Valid host requireAllowlist ∧
      (r.run events memory).1.map Prod.fst = events.map Prod.fst ∧
      (∀ entry ∈ (r.run events memory).1,
        (Effect.typing entry.1.dialogId ∈ entry.2 ↔ Heeded host dialogs entry.1) ∧
        (entry.2 = [] ↔ ¬ Heeded host dialogs entry.1)) ∧
      (r.run (events.filter fun event ↦ Heeded host dialogs event.1) memory).1 =
        (r.run events memory).1.filter (fun entry ↦ Heeded host dialogs entry.1) ∧
      (r.run (events.filter fun event ↦ Heeded host dialogs event.1) memory).2 =
        (r.run events memory).2 := by
  have hvalid := valid_of_fromEnv hcfg
  have hiff (ev : IncomingEvent) : r.answers ev = true ↔ Heeded host dialogs ev :=
    answers_iff_heeded hvalid hallowed
  obtain ⟨hevents, heffects⟩ := r.effects_ne_nil_iff events memory
  refine ⟨hvalid, hevents, fun entry hentry ↦ ?_, ?_⟩
  · obtain ⟨htyping, hnil⟩ := heffects entry hentry
    rw [← hiff, Bool.not_eq_true]
    exact ⟨htyping, hnil⟩
  · have hheeded (ev : IncomingEvent) : decide (Heeded host dialogs ev) = r.answers ev := by
      rw [Bool.eq_iff_iff, decide_eq_true_iff, hiff]
    simp only [hheeded]
    exact r.run_filter events memory

/-- A host that allows Ann. -/
def annHost : Host where
  env key :=
    if key = "TG_AGENT_MODEL" then some "a:b"
    else if key = "TG_AGENT_ALLOWLIST" then some "7, @Ann"
    else none
  lower s := if s = "Ann" then "ann" else s
  isDigit c := c = '7'
  decimal c :=
    if c = '7' then some 7 else if c = '3' then some 3 else if c = '0' then some 0 else none
  repr := id
  reprJson _ := ""
  isFile _ := false
  readText _ := .missing

/-- Its settings. -/
def annConfig : AgentConfig where
  model := "a:b"
  allowAll := false
  allowIds := [7]
  allowUsernames := ["ann"]
  searchProvider := "duckduckgo"
  visionModel := none
  suggestModel := none
  intents := []
  suggestHistoryLimit := 30
  factoryUrl := none
  factoryPassword := none

theorem fromEnv_annHost : AgentConfig.fromEnv annHost true = .ok annConfig := by
  unfold AgentConfig.fromEnv
  refine bind_eq_ok_iff.mpr ⟨(), rfl, ?_⟩
  refine bind_eq_ok_iff.mpr ⟨(), rfl, ?_⟩
  refine bind_eq_ok_iff.mpr ⟨(), rfl, ?_⟩
  refine bind_eq_ok_iff.mpr ⟨(), rfl, ?_⟩
  refine bind_eq_ok_iff.mpr ⟨([7], ["ann"]), rfl, ?_⟩
  refine bind_eq_ok_iff.mpr ⟨(), rfl, ?_⟩
  refine bind_eq_ok_iff.mpr ⟨none, rfl, ?_⟩
  refine bind_eq_ok_iff.mpr ⟨none, rfl, ?_⟩
  refine bind_eq_ok_iff.mpr ⟨30, rfl, ?_⟩
  refine bind_eq_ok_iff.mpr ⟨(), rfl, ?_⟩
  exact bind_eq_ok_iff.mpr ⟨[], rfl, rfl⟩

/-- Ann is found by her name, and answered. -/
theorem run_heeded_ann :
    let dialogs : List Dialog := [⟨5, "Ann", .dm, some "ann", 0, true⟩]
    let r : AgentRunner (String → OrchestratorState) :=
      ⟨ordering, prepare annHost annConfig dialogs, false, fun _ ↦ ""⟩
    ∀ entry ∈ (r.run [(ann, {})] ⟨fun _ ↦ {}, .empty⟩).1,
      Effect.typing 5 ∈ entry.2 ∧ entry.1.dialogId = 5 := by
  intro dialogs r entry hentry
  have hallowed : r.allowed = prepare annHost annConfig dialogs := rfl
  obtain ⟨-, hevents, heffects, -⟩ :=
    run_heeded fromEnv_annHost hallowed [(ann, {})] ⟨fun _ ↦ {}, .empty⟩
  have hann : entry.1 = ann := by
    have hmem := List.mem_map_of_mem (f := Prod.fst) hentry
    rw [hevents] at hmem
    exact List.mem_singleton.mp hmem
  have hheeded : Heeded annHost dialogs ann := by decide
  rw [← hann] at hheeded
  have htyping := (heffects entry hentry).1.mpr hheeded
  rw [hann] at htyping ⊢
  exact ⟨htyping, rfl⟩

end AgentRunner

end TgMessenger.Agent
