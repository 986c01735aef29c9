import TgMessenger.Data.Newer
import TgMessenger.Outbound.Tokens

/-!
# Which tokens can be redeemed

When the table is full, `_prune` drops the oldest token that is not being sent.  The tokens that
are being sent stand in front of it and stay, so it may be younger than it seems: with as many
sends under way as the table has places it is the token that is just being issued.
-/

namespace TgMessenger.Outbound

variable {T : Type} [DecidableEq T]

theorem Setup.cap_pos (cfg : Setup) : 0 < cfg.cap := by
  rw [Setup.cap]
  omega

/-! ## Pruning a table that was not too large -/

namespace Coordinator

theorem pruneSize_of_size_le {cap : ℕ} {tokens : OrderedDict T TokenEntry} (fuel : ℕ)
    (h : tokens.size ≤ cap) : pruneSize cap fuel tokens = tokens := by
  cases fuel with
  | zero => rfl
  | succ fuel => rw [pruneSize, if_neg (Nat.not_lt.mpr h)]

/-- A table that is too large by one loses the oldest token that is not being sent. -/
theorem pruneSize_of_size_eq {cap : ℕ} {tokens : OrderedDict T TokenEntry} {v : T × TokenEntry}
    (fuel : ℕ) (hsize : tokens.size = cap + 1)
    (hv : tokens.items.find? (fun e ↦ !e.2.sending) = some v) :
    pruneSize cap (fuel + 1) tokens = tokens.erase v.1 := by
  rw [pruneSize, if_pos (by omega), hv]
  refine pruneSize_of_size_le fuel ?_
  have hlt : (tokens.erase v.1).size < tokens.size := by
    refine List.length_filter_lt_length_iff_exists.mpr ⟨v, List.mem_of_find?_eq_some hv, ?_⟩
    simp
  omega

omit [DecidableEq T] in
theorem mem_pruneExpired {now : Time} {tokens : OrderedDict T TokenEntry} {e : T × TokenEntry} :
    e ∈ (pruneExpired now tokens).items ↔
      e ∈ tokens.items ∧ ¬ (e.2.expiresAt ≤ now ∧ e.2.sending = false) := by
  rw [pruneExpired, OrderedDict.items_retain, List.mem_filter, decide_eq_true_eq]

/-- What `_remember_token` leaves of a table that was not too large. -/
theorem rememberToken_cases (cfg : Setup) {token : T} (dialogId : ℤ) (ownerId sourceText : String)
    (variants : List String) {s : Coordinator T} (hnew : s.tokens.get? token = none)
    (hsize : s.tokens.size ≤ cfg.cap) :
    let kept := (pruneExpired (cfg.clock s.ticks) s.tokens).items
    let entry : TokenEntry := ⟨dialogId, ownerId, sourceText, variants,
      cfg.clock s.ticks + cfg.tokenTtl, false⟩
    let items :=
      (s.rememberToken cfg token dialogId ownerId sourceText variants).tokens.items
    (cfg.tokenTtl ≤ 0 ∧ items = kept) ∨
    (0 < cfg.tokenTtl ∧ kept.length < cfg.cap ∧ items = kept ++ [(token, entry)]) ∨
    0 < cfg.tokenTtl ∧ kept.length = cfg.cap ∧ ∃ v,
      (kept ++ [(token, entry)]).find? (fun e ↦ !e.2.sending) = some v ∧
      items = (kept ++ [(token, entry)]).filter fun e ↦ e.1 ≠ v.1 := by
  intro kept entry items
  set now := cfg.clock s.ticks with hnow
  have hkept : (pruneExpired now s.tokens).size ≤ cfg.cap :=
    (size_pruneExpired_le now s.tokens).trans hsize
  have hfirst : prune cfg now s.tokens = pruneExpired now s.tokens :=
    pruneSize_of_size_le _ hkept
  have hfresh : ∀ e ∈ kept, e.1 ≠ token := by
    rintro e he rfl
    have hmem := OrderedDict.get?_eq_some_iff.mpr (mem_pruneExpired.mp he).1
    rw [hnew] at hmem
    cases hmem
  have hset : (((pruneExpired now s.tokens).set token entry).moveToEnd token).items =
      kept ++ [(token, entry)] := by
    rw [OrderedDict.items_moveToEnd_set, OrderedDict.items_erase]
    refine congrArg (· ++ [(token, entry)]) (List.filter_eq_self.mpr fun e he ↦ ?_)
    exact decide_eq_true (hfresh e he)
  have hagain : kept.filter (fun e ↦ decide (¬ (e.2.expiresAt ≤ now ∧ e.2.sending = false))) =
      kept := List.filter_eq_self.mpr fun e he ↦ decide_eq_true (mem_pruneExpired.mp he).2
  have hitems : items = (prune cfg now
      (((pruneExpired now s.tokens).set token entry).moveToEnd token)).items := by
    rw [← hfirst]
    rfl
  have hexpired : (pruneExpired now
      (((pruneExpired now s.tokens).set token entry).moveToEnd token)).items =
        kept ++ if 0 < cfg.tokenTtl then [(token, entry)] else [] := by
    rw [pruneExpired, OrderedDict.items_retain, hset, List.filter_append, hagain]
    have hentry : (¬ (entry.expiresAt ≤ now ∧ entry.sending = false)) ↔ 0 < cfg.tokenTtl := by
      show ¬ (now + cfg.tokenTtl ≤ now ∧ false = false) ↔ _
      rw [add_le_iff_nonpos_right, and_iff_left rfl, not_le]
    rw [List.filter_singleton]
    simp only [hentry, Bool.cond_decide]
  by_cases httl : 0 < cfg.tokenTtl
  · rw [if_pos httl] at hexpired
    have hlength : (pruneExpired now
        (((pruneExpired now s.tokens).set token entry).moveToEnd token)).size =
          kept.length + 1 := by
      rw [OrderedDict.size, hexpired, List.length_append]
      rfl
    rw [prune, hlength] at hitems
    rcases Nat.lt_or_eq_of_le hkept with hlt | heq
    · refine .inr (.inl ⟨httl, hlt, ?_⟩)
      rw [hitems, pruneSize_of_size_le _ (hlength.trans_le hlt), hexpired]
    · refine .inr (.inr ⟨httl, heq, ?_⟩)
      have hsome : ((kept ++ [(token, entry)]).find? fun e ↦ !e.2.sending).isSome = true :=
        List.find?_isSome.mpr ⟨(token, entry), by simp, rfl⟩
      obtain ⟨v, hv⟩ := Option.isSome_iff_exists.mp hsome
      refine ⟨v, hv, ?_⟩
      rw [← hexpired] at hv
      rw [hitems, pruneSize_of_size_eq _ (hlength.trans (congrArg (· + 1) heq)) hv,
        OrderedDict.items_erase, hexpired]
  · rw [if_neg httl, List.append_nil] at hexpired
    refine .inl ⟨not_lt.mp httl, ?_⟩
    rw [hitems, prune, pruneSize_of_size_le, hexpired]
    rw [OrderedDict.size, hexpired]
    exact hkept

end Coordinator

/-! ## The tokens in the order in which they were issued -/

/-- A coordinator with its calls, and the tokens it has issued, newest first. -/
structure Issuing (T : Type) where
  world : World T
  issues : List T

/-- The tokens an event issues. -/
def Event.handedOut (cfg : Setup) (store : Coordinator T) : Event T → List T
  | .prepare outbound token dialogId draftText ownerId =>
    (store.prepare cfg outbound token dialogId draftText ownerId).1.token.toList
  | _ => []

/-- The coordinator, and what it issues. -/
def issuing (cfg : Setup) : Machine (Issuing T) (Event T) := fun s e ↦
  (s.world.step cfg e).map fun w ↦ ⟨w, e.handedOut cfg s.world.store ++ s.issues⟩

/-- Every token that has not expired, was not redeemed and is among the newest is in the table. -/
def Redeemable (cfg : Setup) (s : Issuing T) (now : Time) : Prop :=
  ∀ k entry, s.world.issued k = some entry → now < entry.expiresAt → k ∉ s.world.sent →
    (s.issues.newer k).length < cfg.cap →
    ∃ sending, s.world.store.tokens.get? k = some { entry with sending }

/-- No token is issued, or none goes for it, or of the tokens newer than the one that goes at
least as many have left the table as there are tokens being sent in front of it. -/
def spares (cfg : Setup) (s : Issuing T) : Event T → Bool
  | .prepare (some (.translated _ _)) _ _ draftText _ =>
    let kept := Coordinator.pruneExpired (cfg.clock s.world.store.ticks) s.world.store.tokens
    isBlank draftText || decide (cfg.tokenTtl ≤ 0) || decide (kept.size < cfg.cap) ||
      (kept.items.find? fun e ↦ !e.2.sending).any fun v ↦
        (kept.items.takeWhile fun e ↦ e.2.sending).length ≤
          (s.issues.newer v.1).countP fun k ↦ k ∉ kept.keys
  | _ => true

/-- The table lists what is left of the issued tokens in their order, and is not too large. -/
structure Ordered (cfg : Setup) (s : Issuing T) : Prop where
  issued : ∀ k e, s.world.store.tokens.get? k = some e →
    s.world.issued k = some { e with sending := false }
  issues : ∀ k, k ∈ s.issues ↔ s.world.issued k ≠ none
  nodup : s.issues.Nodup
  keys : s.world.store.tokens.keys.Sublist s.issues.reverse
  size : s.world.store.tokens.size ≤ cfg.cap
  /-- A token that is marked is being sent. -/
  marked : ∀ k e, s.world.store.tokens.get? k = some e → e.sending = true →
    ∃ t send, s.world.status t = .sending send ∧ send.token = k
  known : ∀ t send, s.world.status t = .sending send → s.world.issued send.token ≠ none
  sent : ∀ k ∈ s.world.sent, s.world.issued k ≠ none ∧ s.world.store.tokens.get? k = none

section Steps

variable {cfg : Setup} {s : Issuing T} {w : World T} {now : Time}

theorem ordered_init (cfg : Setup) : Ordered cfg (⟨.init, []⟩ : Issuing T) where
  issued _ _ h := nomatch h
  issues _ := ⟨fun h ↦ absurd h List.not_mem_nil, fun h ↦ absurd rfl h⟩
  nodup := List.nodup_nil
  keys := .slnil
  size := Nat.zero_le _
  marked _ _ h := nomatch h
  known _ _ h := nomatch h
  sent _ h := absurd h List.not_mem_nil

theorem redeemable_init (cfg : Setup) (now : Time) :
    Redeemable cfg (⟨.init, []⟩ : Issuing T) now := by
  intro k entry hk
  cases hk

/-- Nothing is issued, and tokens are only marked, unmarked or dropped. -/
theorem Ordered.of_sub (h : Ordered cfg s) (hissued : w.issued = s.world.issued)
    (hkeys : w.store.tokens.keys.Sublist s.world.store.tokens.keys)
    (hentries : ∀ k e, w.store.tokens.get? k = some e →
      ∃ sending, s.world.store.tokens.get? k = some { e with sending })
    (hmarked : ∀ k e, w.store.tokens.get? k = some e → e.sending = true →
      ∃ t send, w.status t = .sending send ∧ send.token = k)
    (hknown : ∀ t send, w.status t = .sending send → w.issued send.token ≠ none)
    (hsent : ∀ k ∈ w.sent, w.issued k ≠ none ∧ w.store.tokens.get? k = none) :
    Ordered cfg ⟨w, s.issues⟩ where
  issued k e hk := by
    obtain ⟨sending, hold⟩ := hentries k e hk
    exact (congrFun hissued k).trans (h.issued k { e with sending } hold)
  issues k := by
    rw [hissued]
    exact h.issues k
  nodup := h.nodup
  keys := hkeys.trans h.keys
  size := by
    rw [OrderedDict.size, ← List.length_map (f := Prod.fst)]
    refine hkeys.length_le.trans ?_
    rw [OrderedDict.keys, List.length_map]
    exact h.size
  marked := hmarked
  known := hknown
  sent := hsent

/-- Nothing is issued, and what is dropped has expired or was sent. -/
theorem Redeemable.of_kept (h : Redeemable cfg s now) (hissued : w.issued = s.world.issued)
    (hsent : ∀ k ∈ s.world.sent, k ∈ w.sent)
    (hkept : ∀ k e, s.world.store.tokens.get? k = some e → now < e.expiresAt → k ∉ w.sent →
      ∃ sending, w.store.tokens.get? k = some { e with sending }) :
    Redeemable cfg ⟨w, s.issues⟩ now := by
  intro k entry hk hnow hunsent hnewer
  rw [hissued] at hk
  obtain ⟨sending, hold⟩ := h k entry hk hnow (fun hmem ↦ hunsent (hsent k hmem)) hnewer
  exact hkept k { entry with sending } hold hnow hunsent

/-- A call of `send_variant` marks its token. -/
theorem ordered_accepted (h : Ordered cfg s) {t : ℕ} {send : Send T} {entry : TokenEntry}
    {store : Coordinator T}
    (hother : ∀ u send', s.world.status u = .sending send' → u ≠ t)
    (haccept : s.world.store.Accepts cfg send entry)
    (htokens : store.tokens =
      s.world.store.tokens.set send.token { entry with sending := true }) :
    Ordered cfg ⟨{ s.world with
      store, status := Function.update s.world.status t (.sending send) }, s.issues⟩ := by
  have hmem : send.token ∈ s.world.store.tokens.keys :=
    OrderedDict.mem_keys_iff.mpr ⟨entry, haccept.known⟩
  have hlookup : ∀ k, store.tokens.get? k =
      if k = send.token then some { entry with sending := true }
      else s.world.store.tokens.get? k := by
    intro k
    rw [htokens, OrderedDict.get?_set]
  apply h.of_sub (w := { s.world with
    store, status := Function.update s.world.status t (.sending send) }) rfl
  · rw [show store.tokens.keys = s.world.store.tokens.keys by
      rw [htokens, OrderedDict.keys_set_of_mem _ hmem]]
  · intro k e hk
    rw [hlookup] at hk
    split_ifs at hk with heq'
    · obtain rfl := Option.some.inj hk
      exact ⟨entry.sending, heq' ▸ haccept.known⟩
    · exact ⟨e.sending, hk⟩
  · intro k e hk hsending
    rw [hlookup] at hk
    split_ifs at hk with heq'
    · exact ⟨t, send, Function.update_self .., heq'.symm⟩
    · obtain ⟨u, send', hu, htoken⟩ := h.marked k e hk hsending
      exact ⟨u, send', (Function.update_of_ne (hother u send' hu) ..).trans hu, htoken⟩
  · intro u send' hu
    simp only [Function.update_apply] at hu
    split_ifs at hu
    · obtain rfl := Status.sending.inj hu
      rw [h.issued _ entry haccept.known]
      exact Option.some_ne_none _
    · exact h.known u send' hu
  · intro k hk
    obtain ⟨hissued, hgone⟩ := h.sent k hk
    refine ⟨hissued, ?_⟩
    rw [hlookup, if_neg]
    · exact hgone
    · rintro rfl
      cases hgone.symm.trans haccept.known

/-- A call of `send_variant` ends without a send: entries are at most dropped. -/
theorem ordered_refused (h : Ordered cfg s) {t : ℕ} {store : Coordinator T}
    (hother : ∀ u send', s.world.status u = .sending send' → u ≠ t)
    (hkeys : store.tokens.keys.Sublist s.world.store.tokens.keys)
    (hsub : ∀ k e, store.tokens.get? k = some e → s.world.store.tokens.get? k = some e) :
    Ordered cfg ⟨{ s.world with
      store, status := Function.update s.world.status t .ended }, s.issues⟩ := by
  apply h.of_sub (w := { s.world with
    store, status := Function.update s.world.status t .ended }) rfl hkeys
  · exact fun k e hk ↦ ⟨e.sending, hsub k e hk⟩
  · intro k e hk hsending
    obtain ⟨u, send', hu, htoken⟩ := h.marked k e (hsub k e hk) hsending
    exact ⟨u, send', (Function.update_of_ne (hother u send' hu) ..).trans hu, htoken⟩
  · intro u send' hu
    simp only [Function.update_apply] at hu
    split_ifs at hu
    exact h.known u send' hu
  · intro k hk
    obtain ⟨hissued, hgone⟩ := h.sent k hk
    refine ⟨hissued, ?_⟩
    rw [Option.eq_none_iff_forall_ne_some]
    intro e he
    cases hgone.symm.trans (hsub k e he)

/-- A call of `send_variant` starts. -/
theorem step_sendVariant (h : Ordered cfg s) {t : ℕ} {send : Send T}
    (hs : s.world.step cfg (.sendVariant t send) = some w) :
    Ordered cfg ⟨w, s.issues⟩ ∧
      (Redeemable cfg s (cfg.clock s.world.store.ticks) →
        Redeemable cfg ⟨w, s.issues⟩ (cfg.clock s.world.store.ticks)) := by
  obtain ⟨hidle, hcases⟩ := World.step_sendVariant_cases hs
  have hother : ∀ u send', s.world.status u = .sending send' → u ≠ t := by
    rintro u send' hu rfl
    cases hidle.symm.trans hu
  rcases hcases with ⟨entry, store, haccept, htokens, rfl⟩ | ⟨store, htokens, rfl⟩
  · refine ⟨ordered_accepted h hother haccept htokens, fun hredeem ↦ ?_⟩
    apply hredeem.of_kept (w := { s.world with
      store, status := Function.update s.world.status t (.sending send) }) rfl
    · exact fun k hk ↦ hk
    · intro k e hk _ _
      rw [htokens, OrderedDict.get?_set]
      split_ifs with heq'
      · rw [heq', haccept.known] at hk
        rw [Option.some.inj hk]
        exact ⟨true, rfl⟩
      · exact ⟨e.sending, hk⟩
  · constructor
    · apply ordered_refused h hother
      · rcases htokens with htokens | ⟨entry, -, -, htokens⟩
        · rw [htokens]
        · rw [htokens]
          exact OrderedDict.keys_erase_sublist ..
      · intro k e hk
        rcases htokens with htokens | ⟨entry, -, -, htokens⟩
        · rwa [htokens] at hk
        · rw [htokens, OrderedDict.get?_erase] at hk
          split_ifs at hk
          exact hk
    · intro hredeem
      apply hredeem.of_kept (w := { s.world with
        store, status := Function.update s.world.status t .ended }) rfl
      · exact fun k hk ↦ hk
      · intro k e hk hnow _
        rcases htokens with htokens | ⟨entry, hknown, hexpired, htokens⟩
        · rw [htokens]
          exact ⟨e.sending, hk⟩
        · rw [htokens, OrderedDict.get?_erase]
          split_ifs with heq'
          · rw [heq', hknown] at hk
            rw [Option.some.inj hk] at hexpired
            exact absurd hnow hexpired.not_gt
          · exact ⟨e.sending, hk⟩

/-- The send of a call succeeds. -/
theorem step_delivered (h : Ordered cfg s) {t : ℕ}
    (hs : s.world.step cfg (.delivered t) = some w) :
    Ordered cfg ⟨w, s.issues⟩ ∧ (Redeemable cfg s now → Redeemable cfg ⟨w, s.issues⟩ now) := by
  rw [World.step] at hs
  split at hs
  swap
  · cases hs
  rename_i send ht
  obtain rfl := Option.some.inj hs
  have hlookup : ∀ k, (s.world.store.consumeToken send.token).tokens.get? k =
      if k = send.token then none else s.world.store.tokens.get? k :=
    OrderedDict.get?_erase _ _
  have hsub : ∀ k e, (s.world.store.consumeToken send.token).tokens.get? k = some e →
      k ≠ send.token ∧ s.world.store.tokens.get? k = some e := by
    intro k e hk
    rw [hlookup] at hk
    split_ifs at hk with heq
    exact ⟨heq, hk⟩
  constructor
  · apply h.of_sub (w := { s.world with
      store := s.world.store.consumeToken send.token
      status := Function.update s.world.status t .ended
      sent := send.token :: s.world.sent }) rfl
    · exact OrderedDict.keys_erase_sublist ..
    · exact fun k e hk ↦ ⟨e.sending, (hsub k e hk).2⟩
    · intro k e hk hsending
      obtain ⟨hne, hold⟩ := hsub k e hk
      obtain ⟨u, send', hu, htoken⟩ := h.marked k e hold hsending
      refine ⟨u, send', (Function.update_of_ne ?_ ..).trans hu, htoken⟩
      rintro rfl
      obtain rfl := Status.sending.inj (ht.symm.trans hu)
      exact hne htoken.symm
    · intro u send' hu
      simp only [Function.update_apply] at hu
      split_ifs at hu
      exact h.known u send' hu
    · intro k hk
      dsimp only
      rw [hlookup]
      rcases List.mem_cons.mp hk with rfl | hk
      · exact ⟨h.known t send ht, if_pos rfl⟩
      · obtain ⟨hissued, hgone⟩ := h.sent k hk
        exact ⟨hissued, by rw [hgone, ite_self]⟩
  · intro hredeem
    apply hredeem.of_kept (w := { s.world with
      store := s.world.store.consumeToken send.token
      status := Function.update s.world.status t .ended
      sent := send.token :: s.world.sent }) rfl
    · exact fun k hk ↦ List.mem_cons_of_mem _ hk
    · intro k e hk _ hunsent
      have hne : k ≠ send.token := by
        rintro rfl
        exact hunsent List.mem_cons_self
      dsimp only
      rw [hlookup, if_neg hne]
      exact ⟨e.sending, hk⟩

/-- The send of a call fails. -/
theorem step_failed (h : Ordered cfg s) {t : ℕ} (hs : s.world.step cfg (.failed t) = some w) :
    Ordered cfg ⟨w, s.issues⟩ ∧ (Redeemable cfg s now → Redeemable cfg ⟨w, s.issues⟩ now) := by
  rw [World.step] at hs
  split at hs
  swap
  · cases hs
  rename_i send ht
  obtain rfl := Option.some.inj hs
  have hlookup : ∀ k, (s.world.store.restoreToken send.token).tokens.get? k =
      (s.world.store.tokens.get? k).map fun e ↦
        if k = send.token then { e with sending := false } else e := by
    intro k
    rw [Coordinator.restoreToken]
    cases hknown : s.world.store.tokens.get? send.token with
    | some entry =>
      dsimp only
      rw [OrderedDict.get?_set]
      by_cases hk : k = send.token
      · simp [hk, hknown]
      · simp [hk]
    | none =>
      dsimp only
      by_cases hk : k = send.token
      · rw [hk, hknown]
        rfl
      · simp [hk]
  have hkeys : (s.world.store.restoreToken send.token).tokens.keys =
      s.world.store.tokens.keys := by
    rw [Coordinator.restoreToken]
    cases hknown : s.world.store.tokens.get? send.token with
    | some entry =>
      exact OrderedDict.keys_set_of_mem _ (OrderedDict.mem_keys_iff.mpr ⟨entry, hknown⟩)
    | none => rfl
  constructor
  · apply h.of_sub (w := { s.world with
      store := s.world.store.restoreToken send.token
      status := Function.update s.world.status t .ended }) rfl
    · rw [hkeys]
    · intro k e hk
      dsimp only at hk
      rw [hlookup] at hk
      obtain ⟨e', he', rfl⟩ := Option.map_eq_some_iff.mp hk
      refine ⟨e'.sending, ?_⟩
      split_ifs
      · exact he'
      · exact he'
    · intro k e hk hsending
      dsimp only at hk
      rw [hlookup] at hk
      obtain ⟨e', he', rfl⟩ := Option.map_eq_some_iff.mp hk
      by_cases heq : k = send.token
      · rw [if_pos heq] at hsending
        cases hsending
      · rw [if_neg heq] at hsending
        obtain ⟨u, send', hu, htoken⟩ := h.marked k e' he' hsending
        refine ⟨u, send', (Function.update_of_ne ?_ ..).trans hu, htoken⟩
        rintro rfl
        obtain rfl := Status.sending.inj (ht.symm.trans hu)
        exact heq htoken.symm
    · intro u send' hu
      simp only [Function.update_apply] at hu
      split_ifs at hu
      exact h.known u send' hu
    · intro k hk
      obtain ⟨hissued, hgone⟩ := h.sent k hk
      refine ⟨hissued, ?_⟩
      dsimp only
      rw [hlookup, hgone]
      rfl
  · intro hredeem
    apply hredeem.of_kept (w := { s.world with
      store := s.world.store.restoreToken send.token
      status := Function.update s.world.status t .ended }) rfl
    · exact fun k hk ↦ hk
    · intro k e hk _ _
      dsimp only
      rw [hlookup, hk, Option.map_some]
      split_ifs
      · exact ⟨false, rfl⟩
      · exact ⟨e.sending, rfl⟩

end Steps

/-! ## A token is issued -/

section Issue

variable {cfg : Setup} {s : Issuing T} {token : T}

/-- The tokens that are left when a token is issued, before there are too many. -/
def keptTokens (cfg : Setup) (s : Issuing T) : OrderedDict T TokenEntry :=
  Coordinator.pruneExpired (cfg.clock s.world.store.ticks) s.world.store.tokens

/-- A token is issued with an entry. -/
def issueToken (cfg : Setup) (s : Issuing T) (token : T) (dialogId : ℤ)
    (ownerId sourceText : String) (variants : List String) : Issuing T where
  world :=
    { s.world with
      store := s.world.store.rememberToken cfg token dialogId ownerId sourceText variants
      issued := Function.update s.world.issued token (some
        { dialogId, ownerId, sourceText, variants
          expiresAt := cfg.clock s.world.store.ticks + cfg.tokenTtl }) }
  issues := token :: s.issues

/-- A token that was not issued is not in the table. -/
theorem Ordered.get?_of_new (h : Ordered cfg s) (hnew : s.world.issued token = none) :
    s.world.store.tokens.get? token = none := by
  rw [Option.eq_none_iff_forall_ne_some]
  intro e he
  cases hnew.symm.trans (h.issued token e he)

theorem Ordered.size_kept_le (h : Ordered cfg s) : (keptTokens cfg s).size ≤ cfg.cap :=
  (Coordinator.size_pruneExpired_le _ _).trans h.size

theorem Ordered.keys_kept (h : Ordered cfg s) : (keptTokens cfg s).keys.Sublist s.issues.reverse :=
  (List.filter_sublist.map Prod.fst).trans h.keys

/-- What is in the table afterwards was kept, or is the new token. -/
theorem issue_items (h : Ordered cfg s) (hnew : s.world.issued token = none) (dialogId : ℤ)
    (ownerId sourceText : String) (variants : List String) :
    let items := (s.world.store.rememberToken cfg token dialogId ownerId sourceText
      variants).tokens.items
    items.Sublist ((keptTokens cfg s).items ++ [(token, ⟨dialogId, ownerId, sourceText, variants,
      cfg.clock s.world.store.ticks + cfg.tokenTtl, false⟩)]) ∧ items.length ≤ cfg.cap := by
  intro items
  have hkept : (keptTokens cfg s).items.length ≤ cfg.cap := h.size_kept_le
  rcases Coordinator.rememberToken_cases cfg dialogId ownerId sourceText variants
      (h.get?_of_new hnew) h.size with ⟨-, hitems⟩ | ⟨-, hlt, hitems⟩ | ⟨-, heq, v, hv, hitems⟩
  · rw [show items = (keptTokens cfg s).items from hitems]
    exact ⟨List.sublist_append_left .., hkept⟩
  · rw [show items = (keptTokens cfg s).items ++ _ from hitems]
    refine ⟨.refl _, ?_⟩
    rw [List.length_append]
    exact hlt
  · rw [show items = ((keptTokens cfg s).items ++ _).filter _ from hitems]
    refine ⟨List.filter_sublist, Nat.le_of_lt_succ ?_⟩
    refine (List.length_filter_lt_length_iff_exists.mpr
      ⟨v, List.mem_of_find?_eq_some hv, by simp⟩).trans_eq ?_
    rw [List.length_append]
    exact congrArg (· + 1) heq

theorem ordered_issue (h : Ordered cfg s) (hnew : s.world.issued token = none) (dialogId : ℤ)
    (ownerId sourceText : String) (variants : List String) :
    Ordered cfg (issueToken cfg s token dialogId ownerId sourceText variants) := by
  obtain ⟨hsub, hlength⟩ := issue_items h hnew dialogId ownerId sourceText variants
  have hfresh : token ∉ s.issues := fun hmem ↦ (h.issues token).mp hmem hnew
  have hentry : ∀ k e, (s.world.store.rememberToken cfg token dialogId ownerId sourceText
      variants).tokens.get? k = some e → k ≠ token ∧ s.world.store.tokens.get? k = some e ∨
        k = token ∧ e = ⟨dialogId, ownerId, sourceText, variants,
          cfg.clock s.world.store.ticks + cfg.tokenTtl, false⟩ := by
    intro k e hk
    rcases List.mem_append.mp (hsub.subset (OrderedDict.get?_eq_some_iff.mp hk)) with hk | hk
    · have hold := OrderedDict.get?_eq_some_iff.mpr (Coordinator.mem_pruneExpired.mp hk).1
      refine .inl ⟨?_, hold⟩
      rintro rfl
      cases (h.get?_of_new hnew).symm.trans hold
    · obtain ⟨rfl, rfl⟩ := Prod.mk.inj (List.mem_singleton.mp hk)
      exact .inr ⟨rfl, rfl⟩
  constructor
  · intro k e hk
    rcases hentry k e hk with ⟨hne, hold⟩ | ⟨rfl, rfl⟩
    · exact (Function.update_of_ne hne ..).trans (h.issued k e hold)
    · exact Function.update_self ..
  · intro k
    rw [issueToken]
    dsimp only
    rw [List.mem_cons]
    by_cases hk : k = token
    · rw [hk, Function.update_self]
      exact iff_of_true (.inl rfl) (Option.some_ne_none _)
    · rw [Function.update_of_ne hk, or_iff_right hk]
      exact h.issues k
  · exact List.nodup_cons.mpr ⟨hfresh, h.nodup⟩
  · refine (hsub.map Prod.fst).trans ?_
    rw [List.map_append, issueToken, List.reverse_cons]
    exact h.keys_kept.append (.refl _)
  · exact hlength
  · intro k e hk hsending
    rcases hentry k e hk with ⟨-, hold⟩ | ⟨-, rfl⟩
    · exact h.marked k e hold hsending
    · cases hsending
  · intro t send ht
    rw [issueToken]
    dsimp only
    have hne : send.token ≠ token := by
      intro heq
      exact h.known t send ht (heq ▸ hnew)
    rw [Function.update_of_ne hne]
    exact h.known t send ht
  · intro k hk
    obtain ⟨hissued, hgone⟩ := h.sent k hk
    have hne : k ≠ token := by
      rintro rfl
      exact hissued hnew
    refine ⟨(Function.update_of_ne hne ..).trans_ne hissued, ?_⟩
    rw [Option.eq_none_iff_forall_ne_some]
    intro e he
    rcases hentry k e he with ⟨-, hold⟩ | ⟨heq, -⟩
    · cases hgone.symm.trans hold
    · exact hne heq

/-- The oldest token that is not being sent, when the table is full: it is among the newest
exactly when too few of the tokens newer than it have left the table. -/
theorem victim_iff (h : Ordered cfg s) {v : T × TokenEntry}
    (hfull : (keptTokens cfg s).items.length = cfg.cap)
    (hv : (keptTokens cfg s).items.find? (fun e ↦ !e.2.sending) = some v) :
    (s.issues.newer v.1).length + 1 < cfg.cap ↔
      ¬ ((keptTokens cfg s).items.takeWhile fun e ↦ e.2.sending).length ≤
        (s.issues.newer v.1).countP fun k ↦ k ∉ (keptTokens cfg s).keys := by
  obtain ⟨hready, before, after, hitems, hbefore⟩ := List.find?_eq_some_iff_append.mp hv
  have htakeWhile : (keptTokens cfg s).items.takeWhile (fun e ↦ e.2.sending) = before := by
    rw [hitems, List.takeWhile_append_of_pos, List.takeWhile_cons_of_neg, List.append_nil]
    · simpa using hready
    · intro e he
      simpa using hbefore e he
  have hkeys : (keptTokens cfg s).keys = before.map Prod.fst ++ v.1 :: after.map Prod.fst := by
    rw [OrderedDict.keys, hitems, List.map_append, List.map_cons]
  have hnewer := List.length_newer h.nodup (hkeys ▸ h.keys_kept)
  rw [hitems, List.length_append, List.length_cons] at hfull
  rw [htakeWhile, hkeys, hnewer, List.length_map]
  omega

theorem newer_issue_self : (List.newer (token :: s.issues) token).length = 0 := by
  rw [List.newer_cons_self]
  rfl

theorem newer_issue_of_ne {k : T} (hk : k ≠ token) :
    (List.newer (token :: s.issues) k).length = (s.issues.newer k).length + 1 := by
  rw [List.newer_cons_of_ne _ hk.symm, List.length_cons]

/-- A token that should be in the table afterwards was kept, or is the new one. -/
theorem candidate_cases
    (hredeem : Redeemable cfg s (cfg.clock s.world.store.ticks)) {dialogId : ℤ}
    {ownerId sourceText : String} {variants : List String} {k : T} {entry : TokenEntry}
    (hk : (issueToken cfg s token dialogId ownerId sourceText variants).world.issued k =
      some entry) (hnow : cfg.clock s.world.store.ticks < entry.expiresAt)
    (hunsent : k ∉ s.world.sent)
    (hnewer : (List.newer (token :: s.issues) k).length < cfg.cap) :
    (k = token ∧ 0 < cfg.tokenTtl ∧ entry = ⟨dialogId, ownerId, sourceText, variants,
      cfg.clock s.world.store.ticks + cfg.tokenTtl, false⟩) ∨
    k ≠ token ∧ (s.issues.newer k).length + 1 < cfg.cap ∧
      ∃ sending, (k, { entry with sending }) ∈ (keptTokens cfg s).items := by
  rw [issueToken] at hk
  dsimp only at hk
  by_cases hkey : k = token
  · subst hkey
    rw [Function.update_self] at hk
    obtain rfl := Option.some.inj hk
    exact .inl ⟨rfl, pos_of_lt_add_right hnow, rfl⟩
  · rw [Function.update_of_ne hkey] at hk
    rw [newer_issue_of_ne hkey] at hnewer
    obtain ⟨sending, hold⟩ := hredeem k entry hk hnow hunsent (Nat.lt_of_succ_lt hnewer)
    refine .inr ⟨hkey, hnewer, sending, Coordinator.mem_pruneExpired.mpr
      ⟨OrderedDict.get?_eq_some_iff.mp hold, ?_⟩⟩
    exact fun hexpired ↦ absurd hnow hexpired.1.not_gt

omit [DecidableEq T] in
/-- The oldest token that is not being sent, with the new one at the end. -/
theorem find?_append_new (l : List (T × TokenEntry)) {new : T × TokenEntry}
    (hnew : new.2.sending = false) :
    (l ++ [new]).find? (fun e ↦ !e.2.sending) =
      some ((l.find? fun e ↦ !e.2.sending).getD new) := by
  rw [List.find?_append, List.find?_singleton, hnew]
  cases l.find? fun e ↦ !e.2.sending <;> rfl

/-- No kept token is the new one. -/
theorem ne_of_mem_keptTokens (h : Ordered cfg s) (hnew : s.world.issued token = none)
    {e : T × TokenEntry} (he : e ∈ (keptTokens cfg s).items) : e.1 ≠ token := by
  rintro rfl
  have hmem := OrderedDict.get?_eq_some_iff.mpr (Coordinator.mem_pruneExpired.mp he).1
  cases (h.get?_of_new hnew).symm.trans hmem

/-- The token that goes is no longer in the table. -/
theorem get?_issueToken_of_filter {dialogId : ℤ} {ownerId sourceText : String}
    {variants : List String} {l : List (T × TokenEntry)} {k : T}
    (hitems : (s.world.store.rememberToken cfg token dialogId ownerId sourceText
      variants).tokens.items = l.filter fun e ↦ e.1 ≠ k) :
    (issueToken cfg s token dialogId ownerId sourceText variants).world.store.tokens.get? k =
      none := by
  rw [OrderedDict.get?_eq_none_iff, issueToken, OrderedDict.keys, hitems]
  simp

/-- A full table lets one of its tokens go for the new one, the oldest that is not being sent. What
it should keep stays if and only if enough of the tokens newer than that one have left the table. -/
theorem redeemable_issue_full_iff (h : Ordered cfg s) (hnew : s.world.issued token = none)
    (hredeem : Redeemable cfg s (cfg.clock s.world.store.ticks)) {dialogId : ℤ}
    {ownerId sourceText : String} {variants : List String}
    (hfull : (keptTokens cfg s).items.length = cfg.cap) {v : T × TokenEntry}
    (hv : (keptTokens cfg s).items.find? (fun e ↦ !e.2.sending) = some v)
    (hitems : (s.world.store.rememberToken cfg token dialogId ownerId sourceText
      variants).tokens.items = ((keptTokens cfg s).items ++ [(token, (⟨dialogId, ownerId,
        sourceText, variants, cfg.clock s.world.store.ticks + cfg.tokenTtl, false⟩ :
          TokenEntry))]).filter fun e ↦ e.1 ≠ v.1) :
    Redeemable cfg (issueToken cfg s token dialogId ownerId sourceText variants)
        (cfg.clock s.world.store.ticks) ↔
      ((keptTokens cfg s).items.takeWhile fun e ↦ e.2.sending).length ≤
        (s.issues.newer v.1).countP fun k ↦ k ∉ (keptTokens cfg s).keys := by
  have hvictim := victim_iff h hfull hv
  have hmem : v ∈ (keptTokens cfg s).items := List.mem_of_find?_eq_some hv
  have hne : v.1 ≠ token := ne_of_mem_keptTokens h hnew hmem
  constructor
  · intro hafter
    by_contra hfew
    obtain ⟨hold, hunexpired⟩ := Coordinator.mem_pruneExpired.mp hmem
    have hready : v.2.sending = false := by
      have hfound := List.find?_some hv
      simpa using hfound
    have hget := OrderedDict.get?_eq_some_iff.mpr hold
    obtain ⟨sending, hstays⟩ := hafter v.1 { v.2 with sending := false }
      ((Function.update_of_ne hne ..).trans (h.issued v.1 v.2 hget))
      (not_le.mp fun hle ↦ hunexpired ⟨hle, hready⟩)
      (fun hsent ↦ Option.some_ne_none _ (hget.symm.trans (h.sent v.1 hsent).2))
      ((newer_issue_of_ne hne).trans_lt (hvictim.mpr hfew))
    cases (get?_issueToken_of_filter hitems).symm.trans hstays
  · rintro hmany k entry hk hnow hunsent hnewer
    have hstays : ∀ e, (k, e) ∈ (keptTokens cfg s).items ++ [(token, (⟨dialogId, ownerId,
        sourceText, variants, cfg.clock s.world.store.ticks + cfg.tokenTtl, false⟩ :
          TokenEntry))] → k ≠ v.1 →
        (s.world.store.rememberToken cfg token dialogId ownerId sourceText
          variants).tokens.get? k = some e := by
      intro e he hother
      rw [OrderedDict.get?_eq_some_iff, hitems]
      exact List.mem_filter.mpr ⟨he, decide_eq_true hother⟩
    rcases candidate_cases hredeem hk hnow hunsent hnewer with
      ⟨rfl, -, rfl⟩ | ⟨-, hfew, sending, hold⟩
    · exact ⟨false, hstays _ (by simp) hne.symm⟩
    · refine ⟨sending, hstays _ (List.mem_append_left _ hold) ?_⟩
      rintro rfl
      exact hvictim.mp hfew hmany

/-- Issuing a token keeps what it should if and only if no token goes for it, or enough of those
newer than the one that goes have left the table. -/
theorem redeemable_issue_iff (h : Ordered cfg s) (hnew : s.world.issued token = none)
    (hredeem : Redeemable cfg s (cfg.clock s.world.store.ticks)) (dialogId : ℤ)
    (ownerId sourceText : String) (variants : List String) :
    Redeemable cfg (issueToken cfg s token dialogId ownerId sourceText variants)
        (cfg.clock s.world.store.ticks) ↔
      cfg.tokenTtl ≤ 0 ∨ (keptTokens cfg s).size < cfg.cap ∨
        ∃ v, (keptTokens cfg s).items.find? (fun e ↦ !e.2.sending) = some v ∧
          ((keptTokens cfg s).items.takeWhile fun e ↦ e.2.sending).length ≤
            (s.issues.newer v.1).countP fun k ↦ k ∉ (keptTokens cfg s).keys := by
  rcases Coordinator.rememberToken_cases cfg dialogId ownerId sourceText variants
      (h.get?_of_new hnew) h.size with
    ⟨httl, hitems⟩ | ⟨httl, hlt, hitems⟩ | ⟨httl, hfull, v, hv, hitems⟩
  · refine iff_of_true ?_ (.inl httl)
    intro k entry hk hnow hunsent hnewer
    rcases candidate_cases hredeem hk hnow hunsent hnewer with
      ⟨-, hpos, -⟩ | ⟨-, -, sending, hmem⟩
    · exact absurd httl hpos.not_ge
    · exact ⟨sending, OrderedDict.get?_eq_some_iff.mpr (hitems.symm ▸ hmem)⟩
  · refine iff_of_true ?_ (.inr (.inl hlt))
    intro k entry hk hnow hunsent hnewer
    rcases candidate_cases hredeem hk hnow hunsent hnewer with
      ⟨rfl, -, rfl⟩ | ⟨-, -, sending, hmem⟩
    · exact ⟨false, OrderedDict.get?_eq_some_iff.mpr (hitems.symm ▸ by simp)⟩
    · refine ⟨sending, OrderedDict.get?_eq_some_iff.mpr ?_⟩
      exact hitems.symm ▸ List.mem_append_left _ hmem
  · change (keptTokens cfg s).items.length = cfg.cap at hfull
    change ((keptTokens cfg s).items ++ _).find? _ = some v at hv
    rw [find?_append_new _ rfl, Option.some_inj] at hv
    have hnotlt : ¬ (keptTokens cfg s).size < cfg.cap := hfull.ge.not_gt
    rw [or_iff_right httl.not_ge, or_iff_right hnotlt]
    cases hfind : (keptTokens cfg s).items.find? fun e ↦ !e.2.sending with
    | none =>
      rw [hfind, Option.getD_none] at hv
      subst hv
      refine iff_of_false ?_ ?_
      · intro hafter
        obtain ⟨sending, hget⟩ := hafter token _ (Function.update_self ..)
          (lt_add_of_pos_right _ httl) (fun hsent ↦ (h.sent token hsent).1 hnew)
          (newer_issue_self.trans_lt cfg.cap_pos)
        cases (get?_issueToken_of_filter hitems).symm.trans hget
      · rintro ⟨v, hnone, -⟩
        cases hnone
    | some v' =>
      rw [hfind, Option.getD_some] at hv
      subst hv
      rw [redeemable_issue_full_iff h hnew hredeem hfull hfind hitems]
      exact ⟨fun hmany ↦ ⟨v', rfl, hmany⟩, fun ⟨v, hv, hmany⟩ ↦ Option.some.inj hv ▸ hmany⟩

end Issue

/-! ## One event -/

section Event

variable {cfg : Setup} {s s' : Issuing T} {e : Event T} {now now' : Time}

/-- A call of `prepare` ends: it issues a token for a translated draft, and else does nothing. -/
theorem issuing_prepare_cases {outbound : Option Translation} {token : T} {dialogId : ℤ}
    {draftText ownerId : String}
    (hs : issuing cfg s (.prepare outbound token dialogId draftText ownerId) = some s') :
    s' = s ∧ spares cfg s (.prepare outbound token dialogId draftText ownerId) = true ∨
      s.world.issued token = none ∧ isBlank draftText = false ∧ ∃ targetLang variants,
        outbound = some (.translated targetLang variants) ∧
        s' = issueToken cfg s token dialogId ownerId draftText variants := by
  obtain ⟨w, hw, rfl⟩ := Option.map_eq_some_iff.mp hs
  rw [World.step] at hw
  split_ifs at hw with hnew
  obtain rfl := Option.some.inj hw
  have hidle : (s.world.store.prepare cfg outbound token dialogId draftText ownerId).2 =
      s.world.store →
      (s.world.store.prepare cfg outbound token dialogId draftText ownerId).1.token = none →
      (⟨{ s.world with
          store := (s.world.store.prepare cfg outbound token dialogId draftText ownerId).2
          issued := Function.update s.world.issued token
            ((s.world.store.prepare cfg outbound token dialogId draftText ownerId).1.token.map
              fun _ ↦
                { dialogId, ownerId, sourceText := draftText
                  variants := (s.world.store.prepare cfg outbound token dialogId draftText
                    ownerId).1.variants
                  expiresAt := cfg.clock s.world.store.ticks + cfg.tokenTtl }) },
        Event.handedOut cfg s.world.store (.prepare outbound token dialogId draftText ownerId) ++
          s.issues⟩ : Issuing T) = s := by
    intro hstore htoken
    rw [Event.handedOut, hstore, htoken, Option.map_none, ← hnew, Function.update_eq_self]
    rfl
  cases hblank : isBlank draftText with
  | true =>
    refine .inl ⟨hidle ?_ ?_, ?_⟩
    · rw [Coordinator.prepare.eq_def, if_pos hblank]
    · rw [Coordinator.prepare.eq_def, if_pos hblank]
    · cases outbound with
      | none => rfl
      | some translation => cases translation <;> simp [spares, hblank]
  | false =>
    have hprepare : ¬ isBlank draftText = true := Bool.not_eq_true _ ▸ hblank
    cases outbound with
    | none =>
      refine .inl ⟨hidle ?_ ?_, rfl⟩
      · rw [Coordinator.prepare, if_neg hprepare]
      · rw [Coordinator.prepare, if_neg hprepare]
    | some translation =>
      cases translation with
      | timeout =>
        refine .inl ⟨hidle ?_ ?_, rfl⟩
        · rw [Coordinator.prepare, if_neg hprepare]
        · rw [Coordinator.prepare, if_neg hprepare]
      | failure =>
        refine .inl ⟨hidle ?_ ?_, rfl⟩
        · rw [Coordinator.prepare, if_neg hprepare]
        · rw [Coordinator.prepare, if_neg hprepare]
      | notApplicable =>
        refine .inl ⟨hidle ?_ ?_, rfl⟩
        · rw [Coordinator.prepare, if_neg hprepare]
        · rw [Coordinator.prepare, if_neg hprepare]
      | translated targetLang variants =>
        refine .inr ⟨hnew, rfl, targetLang, variants, rfl, ?_⟩
        rw [Event.handedOut, Coordinator.prepare, if_neg hprepare]
        rfl

/-- One event: what should be in the table stays there if and only if the event spares it. -/
theorem step_iff (h : Ordered cfg s) (hs : issuing cfg s e = some s') :
    Ordered cfg s' ∧ (Redeemable cfg s (cfg.clock s.world.store.ticks) →
      (Redeemable cfg s' (cfg.clock s.world.store.ticks) ↔ spares cfg s e = true)) := by
  cases e with
  | prepare outbound token dialogId draftText ownerId =>
    rcases issuing_prepare_cases hs with
      ⟨rfl, hspares⟩ | ⟨hnew, hblank, targetLang, variants, rfl, rfl⟩
    · exact ⟨h, fun hredeem ↦ iff_of_true hredeem hspares⟩
    · refine ⟨ordered_issue h hnew dialogId ownerId draftText variants, fun hredeem ↦ ?_⟩
      rw [redeemable_issue_iff h hnew hredeem]
      simp only [spares, hblank, Bool.false_or, Bool.or_eq_true, decide_eq_true_eq,
        Option.any_eq_true, or_assoc]
      rfl
  | sendVariant t send =>
    obtain ⟨w, hw, rfl⟩ := Option.map_eq_some_iff.mp hs
    obtain ⟨hordered, hredeem⟩ := step_sendVariant h hw
    exact ⟨hordered, fun hbefore ↦ iff_of_true (hredeem hbefore) rfl⟩
  | delivered t =>
    obtain ⟨w, hw, rfl⟩ := Option.map_eq_some_iff.mp hs
    obtain ⟨hordered, hredeem⟩ := step_delivered h hw
    exact ⟨hordered, fun hbefore ↦ iff_of_true (hredeem hbefore) rfl⟩
  | failed t =>
    obtain ⟨w, hw, rfl⟩ := Option.map_eq_some_iff.mp hs
    obtain ⟨hordered, hredeem⟩ := step_failed h hw
    exact ⟨hordered, fun hbefore ↦ iff_of_true (hredeem hbefore) rfl⟩

theorem ticks_markSending (cfg : Setup) (send : Send T) (store : Coordinator T) :
    (store.markSending cfg send.token send.dialogId send.ownerId send.text).2.ticks =
      store.ticks + 1 := by
  rw [Coordinator.markSending]
  dsimp only [Coordinator.readClock]
  split
  · rfl
  · split_ifs <;> rfl

/-- The readings of the clock go on. -/
theorem ticks_le (hs : issuing cfg s e = some s') :
    s.world.store.ticks ≤ s'.world.store.ticks := by
  cases e with
  | prepare outbound token dialogId draftText ownerId =>
    rcases issuing_prepare_cases hs with ⟨rfl, -⟩ | ⟨-, -, targetLang, variants, -, rfl⟩
    · exact le_rfl
    · exact Nat.le_succ _
  | sendVariant t send =>
    obtain ⟨w, hw, rfl⟩ := Option.map_eq_some_iff.mp hs
    rw [World.step] at hw
    split at hw
    · have hticks := ticks_markSending cfg send s.world.store
      split at hw
      · next store heq =>
        obtain rfl := Option.some.inj hw
        rw [heq] at hticks
        exact (Nat.le_succ _).trans_eq hticks.symm
      · next store heq =>
        obtain rfl := Option.some.inj hw
        rw [heq] at hticks
        exact (Nat.le_succ _).trans_eq hticks.symm
    · cases hw
  | delivered t =>
    obtain ⟨w, hw, rfl⟩ := Option.map_eq_some_iff.mp hs
    rw [World.step] at hw
    split at hw
    · obtain rfl := Option.some.inj hw
      exact le_rfl
    · cases hw
  | failed t =>
    obtain ⟨w, hw, rfl⟩ := Option.map_eq_some_iff.mp hs
    rw [World.step] at hw
    split at hw
    · next send ht =>
      obtain rfl := Option.some.inj hw
      show _ ≤ (s.world.store.restoreToken send.token).ticks
      rw [Coordinator.restoreToken]
      split
      · exact le_rfl
      · exact le_rfl
    · cases hw

theorem Redeemable.mono (h : Redeemable cfg s now) (hle : now ≤ now') :
    Redeemable cfg s now' := fun k entry hk hnow ↦ h k entry hk (hle.trans_lt hnow)

end Event

/-- The request of the owner of a token for one of its variants is accepted, or the token is
being sent. -/
theorem redeem_cases {cfg : Setup} {s : Issuing T} (h : Ordered cfg s) {k : T}
    {entry : TokenEntry} {text : String} {sending : Bool}
    (hk : s.world.store.tokens.get? k = some { entry with sending })
    (hnow : cfg.clock s.world.store.ticks < entry.expiresAt) (htext : text ∈ entry.variants) :
    (s.world.store.markSending cfg k entry.dialogId entry.ownerId text).1 =
        .ok { entry with sending := true } ∨
      (s.world.store.markSending cfg k entry.dialogId entry.ownerId text).1 =
        .error "outbound send already in progress" ∧
      ∃ t send, s.world.status t = .sending send ∧ send.token = k := by
  rw [Coordinator.markSending]
  dsimp only [Coordinator.readClock]
  rw [hk]
  dsimp only
  rw [if_neg hnow.not_ge]
  cases sending with
  | true => exact .inr ⟨rfl, h.marked k _ hk rfl⟩
  | false =>
    rw [if_neg Bool.false_ne_true, if_neg (fun hne ↦ hne rfl), if_neg (fun hne ↦ hne rfl),
      if_neg (fun hnot ↦ hnot htext)]
    exact .inl rfl

/-- In every run in which every call of `prepare` spares the newest tokens, a token that was
issued can be redeemed by its owner as long as it has not expired, was not redeemed and fewer
tokens than the table has places were issued after it.  An event at such a state keeps this if
and only if it spares them. -/
theorem token_redeemable {cfg : Setup} (hclock : Monotone cfg.clock) {s : Issuing T}
    (hrun : (issuing cfg).Runs (fun s e ↦ spares cfg s e = true) ⟨.init, []⟩ s) :
    (∀ k entry text, s.world.issued k = some entry →
      cfg.clock s.world.store.ticks < entry.expiresAt → k ∉ s.world.sent →
      (s.issues.newer k).length < cfg.cap → text ∈ entry.variants →
      (s.world.store.markSending cfg k entry.dialogId entry.ownerId text).1 =
          .ok { entry with sending := true } ∨
        (s.world.store.markSending cfg k entry.dialogId entry.ownerId text).1 =
          .error "outbound send already in progress" ∧
        ∃ t send, s.world.status t = .sending send ∧ send.token = k) ∧
    ∀ e s', issuing cfg s e = some s' →
      (Redeemable cfg s' (cfg.clock s.world.store.ticks) ↔ spares cfg s e = true) := by
  have hinv : Ordered cfg s ∧ Redeemable cfg s (cfg.clock s.world.store.ticks) := by
    refine hrun.preserves (I := fun s ↦
      Ordered cfg s ∧ Redeemable cfg s (cfg.clock s.world.store.ticks)) ?_
      ⟨ordered_init cfg, redeemable_init cfg _⟩
    rintro s s' e ⟨hordered, hredeem⟩ hspares hs
    obtain ⟨hordered', hiff⟩ := step_iff hordered hs
    exact ⟨hordered', ((hiff hredeem).mpr hspares).mono (hclock (ticks_le hs))⟩
  obtain ⟨hordered, hredeem⟩ := hinv
  constructor
  · intro k entry text hk hnow hunsent hnewer htext
    obtain ⟨sending, hget⟩ := hredeem k entry hk hnow hunsent hnewer
    exact redeem_cases hordered hget hnow htext
  · exact fun e s' hs ↦ (step_iff hordered hs).2 hredeem

/-- A table with one place. -/
def onePlace : Setup := ⟨300, 1, fun _ ↦ 0⟩

/-- The end of a `prepare` that issues another token. -/
def prepareBye : Event ℕ := .prepare (some (.translated "en" ["bye"])) 6 7 "poka" "me"

/-- The only token can be redeemed. -/
theorem token_redeemable_of_one :
    ∃ s : Issuing ℕ, (issuing onePlace).Runs (fun s e ↦ spares onePlace s e = true)
        ⟨.init, []⟩ s ∧ s.issues = [6] ∧
      (s.world.store.markSending onePlace 6 7 "me" "bye").1 =
        .ok ⟨7, "me", "poka", ["bye"], 300, true⟩ := by
  have hexec : (((issuing onePlace).guarded fun s e ↦ spares onePlace s e = true).exec
      (⟨.init, []⟩ : Issuing ℕ) [prepareBye]).any (fun s ↦
        s.issues = [6] ∧ s.world.issued 6 = some ⟨7, "me", "poka", ["bye"], 300, false⟩ ∧
        s.world.sent = [] ∧ (s.world.store.markSending onePlace 6 7 "me" "bye").1 ≠
          .error "outbound send already in progress") = true := by
    decide +kernel
  obtain ⟨s, hrun, hissues, hissued, hsent, hidle⟩ := Machine.exists_run_of_exec hexec
  have hmono : Monotone onePlace.clock := fun _ _ _ ↦ le_rfl
  have hnow : onePlace.clock s.world.store.ticks < 300 := by
    show (0 : ℚ) < 300
    decide
  rcases (token_redeemable hmono hrun).1 6 _ "bye" hissued hnow (hsent ▸ List.not_mem_nil)
      (hissues ▸ by decide) (by simp) with hok | ⟨hsending, -⟩
  · exact ⟨s, hrun, hissues, hok⟩
  · exact absurd hsending hidle

/-- The table is full of a token that is being sent, and the token that is issued is dropped at
once. -/
theorem token_dropped_at_issue :
    Monotone onePlace.clock ∧
    ∃ s : Issuing ℕ, (issuing onePlace).Runs Machine.anyEvent ⟨.init, []⟩ s ∧
      s.world.issued 6 = some ⟨7, "me", "poka", ["bye"], 300, false⟩ ∧
      onePlace.clock s.world.store.ticks < 300 ∧ s.world.sent = [] ∧
      s.issues.newer 6 = [] ∧
      (s.world.store.markSending onePlace 6 7 "me" "bye").1 =
        .error "outbound selection expired" := by
  refine ⟨fun _ _ _ ↦ le_rfl, ?_⟩
  have hexec : (((issuing onePlace).guarded fun _ _ ↦ True).exec (⟨.init, []⟩ : Issuing ℕ)
      [prepareHi, .sendVariant 0 sendHi, prepareBye]).any (fun s ↦
        s.world.issued 6 = some ⟨7, "me", "poka", ["bye"], 300, false⟩ ∧
        onePlace.clock s.world.store.ticks < 300 ∧ s.world.sent = [] ∧
        s.issues.newer 6 = [] ∧
        (s.world.store.markSending onePlace 6 7 "me" "bye").1 =
          .error "outbound selection expired") = true := by
    decide +kernel
  obtain ⟨s, hrun, hend⟩ := Machine.exists_run_of_exec hexec
  exact ⟨s, hrun, hend⟩

end TgMessenger.Outbound
