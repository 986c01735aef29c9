import TgMessenger.Outbound.Coordinator
import Mathlib.Algebra.Order.Ring.Rat
import Mathlib.Data.Nat.Cast.Order.Ring

/-!
# The token protocol

A token is sent at most once, by the owner, to the dialog and with a variant it was issued
for.  A failed send makes it ready again as it was issued, and it leaves the table only
when it has expired, when it was sent, or when there are too many tokens.

All of this rests on one invariant: the token of a send in progress is in the table and
marked.  `_prune` keeps it, since it spares marked tokens.  `_mark_sending` looks at the
expiry before it looks at the mark, so a second request for a token that expired during
its send drops it; `Punctual` excludes that request.
-/

namespace TgMessenger.Outbound

variable {T : Type} [DecidableEq T]

namespace Coordinator

/-! ## Pruning -/

theorem pruneSize_spec (cap fuel : ℕ) (tokens : OrderedDict T TokenEntry) :
    (∀ k e, (pruneSize cap fuel tokens).get? k = some e → tokens.get? k = some e) ∧
    (∀ k e, tokens.get? k = some e → (pruneSize cap fuel tokens).get? k = none →
      e.sending = false ∧ cap < tokens.size) := by
  induction fuel generalizing tokens with
  | zero => exact ⟨fun _ _ h ↦ h, fun k e h hnone ↦ nomatch h.symm.trans hnone⟩
  | succ fuel ih =>
    rw [pruneSize]
    split_ifs with hsize
    · split
      · rename_i e hfind
        obtain ⟨hsub, hlost⟩ := ih (tokens.erase e.1)
        constructor
        · intro k e' hk
          have hk := hsub k e' hk
          rw [OrderedDict.get?_erase] at hk
          split_ifs at hk
          exact hk
        · intro k e' hk hnone
          by_cases heq : k = e.1
          · have hmem : tokens.get? e.1 = some e.2 :=
              OrderedDict.get?_eq_some_iff.mpr (List.mem_of_find?_eq_some hfind)
            rw [← heq, hk] at hmem
            have hready : (!e.2.sending) = true :=
              List.find?_some (p := fun e : T × TokenEntry ↦ !e.2.sending) hfind
            rw [Option.some.inj hmem]
            exact ⟨(Bool.not_eq_true' _).mp hready, hsize⟩
          · have hk' : (tokens.erase e.1).get? k = some e' := by
              rw [OrderedDict.get?_erase_ne _ heq]
              exact hk
            exact ⟨(hlost k e' hk' hnone).1, hsize⟩
      · exact ⟨fun _ _ h ↦ h, fun k e h hnone ↦ nomatch h.symm.trans hnone⟩
    · exact ⟨fun _ _ h ↦ h, fun k e h hnone ↦ nomatch h.symm.trans hnone⟩

omit [DecidableEq T] in
theorem size_pruneExpired_le (now : Time) (tokens : OrderedDict T TokenEntry) :
    (pruneExpired now tokens).size ≤ tokens.size := List.length_filter_le ..

/-- Pruning keeps what it keeps unchanged, and drops only tokens that are not being sent
and have expired or are too many. -/
theorem prune_spec (cfg : Setup) (now : Time) (tokens : OrderedDict T TokenEntry) :
    (∀ k e, (prune cfg now tokens).get? k = some e → tokens.get? k = some e) ∧
    (∀ k e, tokens.get? k = some e → (prune cfg now tokens).get? k = none →
      e.sending = false ∧ (e.expiresAt ≤ now ∨ cfg.cap < tokens.size)) := by
  obtain ⟨hsub, hlost⟩ :=
    pruneSize_spec cfg.cap (pruneExpired now tokens).size (pruneExpired now tokens)
  constructor
  · intro k e hk
    exact (OrderedDict.get?_retain_eq_some_iff.mp (hsub k e hk)).1
  · intro k e hk hnone
    by_cases hexpired : e.expiresAt ≤ now ∧ e.sending = false
    · exact ⟨hexpired.2, .inl hexpired.1⟩
    · have hkept : (pruneExpired now tokens).get? k = some e :=
        OrderedDict.get?_retain_eq_some_iff.mpr ⟨hk, decide_eq_true hexpired⟩
      obtain ⟨hsending, hsize⟩ := hlost k e hkept hnone
      exact ⟨hsending, .inr (hsize.trans_le (size_pruneExpired_le now tokens))⟩

omit [DecidableEq T] in
/-- A token that is still there after pruning has the entry it had. -/
theorem get?_of_subset [DecidableEq T] {tokens tokens' : OrderedDict T TokenEntry}
    (hsub : ∀ k e, tokens'.get? k = some e → tokens.get? k = some e) {k : T} {e : TokenEntry}
    (hk : tokens.get? k = some e) : tokens'.get? k = some e ∨ tokens'.get? k = none := by
  cases h : tokens'.get? k with
  | none => exact .inr rfl
  | some e' => exact .inl (by rw [← hsub k e' h, hk])

theorem size_prune_le (cfg : Setup) (now : Time) (tokens : OrderedDict T TokenEntry) :
    (prune cfg now tokens).size ≤ tokens.size := by
  have hle (cap fuel : ℕ) (tokens : OrderedDict T TokenEntry) :
      (pruneSize cap fuel tokens).size ≤ tokens.size := by
    induction fuel generalizing tokens with
    | zero => exact le_refl _
    | succ fuel ih =>
      rw [pruneSize]
      split_ifs
      · split
        · exact (ih _).trans (List.length_filter_le ..)
        · exact le_refl _
      · exact le_refl _
  exact (hle ..).trans (size_pruneExpired_le now tokens)

/-! ## The token operations -/

/-- `_remember_token`: other tokens stay as they are, or go because they have expired or
the table is full. -/
theorem rememberToken_spec (cfg : Setup) (token : T) (dialogId : ℤ) (ownerId sourceText : String)
    (variants : List String) (s : Coordinator T) :
    (∀ k e, (s.rememberToken cfg token dialogId ownerId sourceText variants).tokens.get? k =
      some e → (k = token ∧ e = ⟨dialogId, ownerId, sourceText, variants,
        cfg.clock s.ticks + cfg.tokenTtl, false⟩) ∨ s.tokens.get? k = some e) ∧
    (∀ k e, k ≠ token → s.tokens.get? k = some e →
      (s.rememberToken cfg token dialogId ownerId sourceText variants).tokens.get? k = some e ∨
      (s.rememberToken cfg token dialogId ownerId sourceText variants).tokens.get? k = none ∧
        e.sending = false ∧ (e.expiresAt ≤ cfg.clock s.ticks ∨ cfg.cap ≤ s.tokens.size)) := by
  set now := cfg.clock s.ticks with hnow
  set entry : TokenEntry :=
    ⟨dialogId, ownerId, sourceText, variants, now + cfg.tokenTtl, false⟩ with hentry
  set first := prune cfg now s.tokens with hfirst
  have htokens : (s.rememberToken cfg token dialogId ownerId sourceText variants).tokens =
      prune cfg now ((first.set token entry).moveToEnd token) := rfl
  obtain ⟨hsub, hlost⟩ := prune_spec cfg now s.tokens
  obtain ⟨hsub', hlost'⟩ := prune_spec cfg now ((first.set token entry).moveToEnd token)
  have hlookup (k : T) : ((first.set token entry).moveToEnd token).get? k =
      if k = token then some entry else first.get? k := by
    rw [OrderedDict.get?_moveToEnd, OrderedDict.get?_set]
  have hsize : ((first.set token entry).moveToEnd token).size ≤ s.tokens.size + 1 := by
    rw [OrderedDict.size_moveToEnd]
    exact (OrderedDict.size_set_le ..).trans (Nat.succ_le_succ (size_prune_le ..))
  rw [htokens]
  constructor
  · intro k e hk
    have hk := hsub' k e hk
    rw [hlookup] at hk
    split_ifs at hk with heq
    · exact .inl ⟨heq, (Option.some.inj hk).symm⟩
    · exact .inr (hsub k e hk)
  · intro k e hne hk
    rcases get?_of_subset hsub hk with hkept | hgone
    · have hmid : ((first.set token entry).moveToEnd token).get? k = some e := by
        rw [hlookup, if_neg hne]
        exact hkept
      rcases get?_of_subset hsub' hmid with hkept' | hgone'
      · exact .inl hkept'
      · obtain ⟨hsending, hwhy⟩ := hlost' k e hmid hgone'
        refine .inr ⟨hgone', hsending, hwhy.imp_right fun hlt ↦ ?_⟩
        omega
    · obtain ⟨hsending, hwhy⟩ := hlost k e hk hgone
      refine .inr ⟨?_, hsending, hwhy.imp_right le_of_lt⟩
      rw [Option.eq_none_iff_forall_ne_some]
      intro e' hk'
      have hk' := hsub' k e' hk'
      rw [hlookup, if_neg hne] at hk'
      cases hgone.symm.trans hk'

/-- What `prepare` does to the table. -/
theorem prepare_cases (cfg : Setup) (outbound : Option Translation) (token : T) (dialogId : ℤ)
    (draftText ownerId : String) (s : Coordinator T) :
    (s.prepare cfg outbound token dialogId draftText ownerId).2 = s ∧
      (s.prepare cfg outbound token dialogId draftText ownerId).1.token = none ∨
    ∃ variants, (s.prepare cfg outbound token dialogId draftText ownerId).2 =
        s.rememberToken cfg token dialogId ownerId draftText variants ∧
      (s.prepare cfg outbound token dialogId draftText ownerId).1.token = some token ∧
      (s.prepare cfg outbound token dialogId draftText ownerId).1.variants = variants := by
  unfold prepare
  split_ifs
  · exact .inl ⟨rfl, rfl⟩
  · rcases outbound with _ | _ | _ | _ | ⟨lang, variants⟩
    · exact .inl ⟨rfl, rfl⟩
    · exact .inl ⟨rfl, rfl⟩
    · exact .inl ⟨rfl, rfl⟩
    · exact .inl ⟨rfl, rfl⟩
    · exact .inr ⟨variants, rfl, rfl, rfl⟩

/-- When `_mark_sending` accepts a request. -/
structure Accepts (cfg : Setup) (s : Coordinator T) (send : Send T) (entry : TokenEntry) :
    Prop where
  known : s.tokens.get? send.token = some entry
  unexpired : cfg.clock s.ticks < entry.expiresAt
  ready : entry.sending = false
  dialog : entry.dialogId = send.dialogId
  owner : entry.ownerId = send.ownerId
  variant : send.text ∈ entry.variants

/-- `_mark_sending` marks the token of an accepted request, drops an expired token, and
otherwise does nothing. -/
theorem markSending_cases (cfg : Setup) (send : Send T) (s : Coordinator T) :
    let r := s.markSending cfg send.token send.dialogId send.ownerId send.text
    (∃ entry, s.Accepts cfg send entry ∧ r.1 = .ok { entry with sending := true } ∧
      r.2.tokens = s.tokens.set send.token { entry with sending := true }) ∨
    (∃ error, r.1 = .error error) ∧
      (r.2.tokens = s.tokens ∨ ∃ entry, s.tokens.get? send.token = some entry ∧
        entry.expiresAt ≤ cfg.clock s.ticks ∧ r.2.tokens = s.tokens.erase send.token) := by
  dsimp only
  rw [markSending]
  dsimp only [readClock]
  split
  · exact .inr ⟨⟨_, rfl⟩, .inl rfl⟩
  · rename_i entry hknown
    split_ifs with hexpired hsending hdialog howner hvariant
    · exact .inr ⟨⟨_, rfl⟩, .inr ⟨entry, hknown, hexpired, rfl⟩⟩
    · exact .inr ⟨⟨_, rfl⟩, .inl rfl⟩
    · exact .inr ⟨⟨_, rfl⟩, .inl rfl⟩
    · exact .inr ⟨⟨_, rfl⟩, .inl rfl⟩
    · exact .inl ⟨entry, ⟨hknown, lt_of_not_ge hexpired, Bool.eq_false_iff.mpr hsending,
        not_not.mp hdialog, not_not.mp howner, hvariant⟩, rfl, rfl⟩
    · exact .inr ⟨⟨_, rfl⟩, .inl rfl⟩

end Coordinator

/-- A call of `send_variant` starts to send and marks its token, or ends, and drops its token if
that has expired. -/
theorem World.step_sendVariant_cases {cfg : Setup} {w w' : World T} {t : ℕ} {send : Send T}
    (hs : w.step cfg (.sendVariant t send) = some w') :
    w.status t = .idle ∧
    ((∃ entry store, w.store.Accepts cfg send entry ∧
        store.tokens = w.store.tokens.set send.token { entry with sending := true } ∧
        w' = { w with store, status := Function.update w.status t (.sending send) }) ∨
      ∃ store, (store.tokens = w.store.tokens ∨ ∃ entry,
          w.store.tokens.get? send.token = some entry ∧
          entry.expiresAt ≤ cfg.clock w.store.ticks ∧
          store.tokens = w.store.tokens.erase send.token) ∧
        w' = { w with store, status := Function.update w.status t .ended }) := by
  rw [World.step] at hs
  have hcases := w.store.markSending_cases cfg send
  split at hs
  · rename_i hidle
    refine ⟨hidle, ?_⟩
    split at hs
    · rename_i entry store heq
      obtain rfl := Option.some.inj hs
      rw [heq] at hcases
      rcases hcases with ⟨entry, haccept, -, htokens⟩ | ⟨⟨error, herror⟩, -⟩
      · exact .inl ⟨entry, store, haccept, htokens, rfl⟩
      · cases herror
    · rename_i error store heq
      obtain rfl := Option.some.inj hs
      rw [heq] at hcases
      rcases hcases with ⟨entry, -, herror, -⟩ | ⟨-, htokens⟩
      · cases herror
      · exact .inr ⟨store, htokens, rfl⟩
  · cases hs

/-! ## The invariant -/

/-- The token of a send in progress is in the table and marked, and belongs to one send. -/
structure Sound (w : World T) : Prop where
  /-- Entries are as they were issued. -/
  issued : ∀ k e, w.store.tokens.get? k = some e → w.issued k = some { e with sending := false }
  marked : ∀ t send, w.status t = .sending send →
    ∃ e, w.store.tokens.get? send.token = some e ∧ e.sending = true
  unique : ∀ t u send send', w.status t = .sending send → w.status u = .sending send' →
    send.token = send'.token → t = u
  /-- A token that was sent is gone for good. -/
  gone : ∀ k ∈ w.sent, w.issued k ≠ none ∧ w.store.tokens.get? k = none
  nodup : w.sent.Nodup

/-- No request for a token that is being sent and has expired. -/
def Punctual (cfg : Setup) (w : World T) (e : Event T) : Prop :=
  ∀ t send, e = .sendVariant t send → ∀ entry, w.store.tokens.get? send.token = some entry →
    entry.sending = true → cfg.clock w.store.ticks < entry.expiresAt

instance (cfg : Setup) (w : World T) (e : Event T) : Decidable (Punctual cfg w e) :=
  match e with
  | .prepare .. | .delivered _ | .failed _ => .isTrue nofun
  | .sendVariant _ send =>
    decidable_of_iff (∀ entry ∈ w.store.tokens.get? send.token, entry.sending = true →
      cfg.clock w.store.ticks < entry.expiresAt)
      ⟨fun h _ _ he ↦ by cases he; exact h, fun h ↦ h _ _ rfl⟩

/-- The reasons for which an event takes a token out of the table. -/
inductive Leaves (cfg : Setup) (w : World T) (e : Event T) (k : T) (entry : TokenEntry) : Prop where
  | expired (h : entry.expiresAt ≤ cfg.clock w.store.ticks)
  | sent (t : ℕ) (send : Send T) (he : e = .delivered t) (ht : w.status t = .sending send)
      (hk : send.token = k)
  | /-- The table is full and another token is issued. -/
    crowded (outbound : Option Translation) (token : T) (dialogId : ℤ) (draftText ownerId : String)
      (he : e = .prepare outbound token dialogId draftText ownerId) (hk : token ≠ k)
      (hready : entry.sending = false) (hfull : cfg.cap ≤ w.store.tokens.size)

/-- What an event may do to tokens. -/
structure Follows (cfg : Setup) (w : World T) (e : Event T) (w' : World T) : Prop where
  /-- A send starts only for a token it fits. -/
  starts : ∀ t send, w.status t ≠ .sending send → w'.status t = .sending send →
    ∃ entry, w.store.Accepts cfg send entry
  /-- A failed send makes its token ready as it was issued. -/
  restores : ∀ t send, e = .failed t → w.status t = .sending send →
    ∃ entry, w.issued send.token = some entry ∧ entry.sending = false ∧
      w'.store.tokens.get? send.token = some entry
  /-- A token stays as it is, but for the mark, or leaves for a reason. -/
  stays : ∀ k entry, w.store.tokens.get? k = some entry →
    (∃ sending, w'.store.tokens.get? k = some { entry with sending }) ∨
      w'.store.tokens.get? k = none ∧ Leaves cfg w e k entry

namespace Sound

variable {cfg : Setup} {w w' : World T}

theorem init : Sound (World.init : World T) where
  issued _ _ h := nomatch h
  marked _ _ h := nomatch h
  unique _ _ _ _ h := nomatch h
  gone _ h := absurd h List.not_mem_nil
  nodup := List.nodup_nil

/-- A call of `prepare` ends. -/
theorem prepare (h : Sound w) {outbound : Option Translation} {token : T} {dialogId : ℤ}
    {draftText ownerId : String}
    (hs : w.step cfg (.prepare outbound token dialogId draftText ownerId) = some w') :
    Sound w' ∧ Follows cfg w (.prepare outbound token dialogId draftText ownerId) w' := by
  rw [World.step] at hs
  split_ifs at hs with hnew
  obtain rfl := Option.some.inj hs
  have hfresh (k : T) (e : TokenEntry) (hk : w.store.tokens.get? k = some e) : k ≠ token := by
    rintro rfl
    exact nomatch hnew.symm.trans (h.issued k e hk)
  rcases w.store.prepare_cases cfg outbound token dialogId draftText ownerId with
    ⟨hstore, htoken⟩ | ⟨variants, hstore, htoken, hvariants⟩
  · rw [hstore, htoken, Option.map_none, ← hnew, Function.update_eq_self]
    refine ⟨⟨h.issued, h.marked, h.unique, h.gone, h.nodup⟩, ?_, ?_, ?_⟩
    · intro t send ht ht'
      exact absurd ht' ht
    · intro t send he
      cases he
    · intro k entry hk
      exact .inl ⟨entry.sending, hk⟩
  · rw [hstore, htoken, hvariants, Option.map_some]
    obtain ⟨hsub, hkept⟩ :=
      w.store.rememberToken_spec cfg token dialogId ownerId draftText variants
    refine ⟨⟨?_, ?_, h.unique, ?_, h.nodup⟩, ?_, ?_, ?_⟩
    · intro k e hk
      rcases hsub k e hk with ⟨rfl, rfl⟩ | hold
      · exact Function.update_self ..
      · exact (Function.update_of_ne (hfresh k e hold) ..).trans (h.issued k e hold)
    · intro t send ht
      obtain ⟨e, hk, hsending⟩ := h.marked t send ht
      rcases hkept send.token e (hfresh _ e hk) hk with hkept | ⟨-, hready, -⟩
      · exact ⟨e, hkept, hsending⟩
      · exact nomatch hsending.symm.trans hready
    · intro k hk
      obtain ⟨hissued, hgone⟩ := h.gone k hk
      have hne : k ≠ token := fun heq ↦ hissued (heq ▸ hnew)
      refine ⟨(Function.update_of_ne hne ..).trans_ne hissued, ?_⟩
      rw [Option.eq_none_iff_forall_ne_some]
      intro e he
      rcases hsub k e he with ⟨heq, -⟩ | hold
      · exact hne heq
      · exact nomatch hgone.symm.trans hold
    · intro t send ht ht'
      exact absurd ht' ht
    · intro t send he
      cases he
    · intro k entry hk
      have hne := hfresh k entry hk
      rcases hkept k entry hne hk with hkept | ⟨hgone, hready, hwhy⟩
      · exact .inl ⟨entry.sending, hkept⟩
      · refine .inr ⟨hgone, ?_⟩
        rcases hwhy with hexpired | hfull
        · exact .expired hexpired
        · exact .crowded _ _ _ _ _ rfl hne.symm hready hfull

/-- A call of `send_variant` marks its token. -/
theorem accepted (h : Sound w) {t : ℕ} {send : Send T} {entry : TokenEntry}
    {store : Coordinator T} (haccept : w.store.Accepts cfg send entry)
    (htokens : store.tokens = w.store.tokens.set send.token { entry with sending := true }) :
    Sound { w with store, status := Function.update w.status t (.sending send) } ∧
      Follows cfg w (.sendVariant t send)
        { w with store, status := Function.update w.status t (.sending send) } := by
  have hlookup (k : T) : store.tokens.get? k =
      if k = send.token then some { entry with sending := true } else
        w.store.tokens.get? k := by
    rw [htokens, OrderedDict.get?_set]
  -- The token was not marked before, so no other send has it.
  have hother (u : ℕ) (send' : Send T) (hu : w.status u = .sending send') :
      send'.token ≠ send.token := by
    intro htoken
    obtain ⟨e, hk, hsending⟩ := h.marked u send' hu
    rw [htoken, haccept.known] at hk
    rw [← Option.some.inj hk, haccept.ready] at hsending
    cases hsending
  refine ⟨⟨?_, ?_, ?_, ?_, h.nodup⟩, ?_, ?_, ?_⟩
  · intro k e hk
    rw [hlookup] at hk
    split_ifs at hk with heq'
    · rw [heq', h.issued send.token entry haccept.known, ← Option.some.inj hk]
    · exact h.issued k e hk
  · intro u send' hu
    simp only [Function.update_apply] at hu
    dsimp only
    rw [hlookup]
    split_ifs at hu with hut
    · obtain rfl := Status.sending.inj hu
      exact ⟨_, if_pos rfl, rfl⟩
    · obtain ⟨e, hk, hsending⟩ := h.marked u send' hu
      split_ifs
      · exact ⟨_, rfl, rfl⟩
      · exact ⟨e, hk, hsending⟩
  · intro u v send₁ send₂ hu hv htoken
    simp only [Function.update_apply] at hu hv
    split_ifs at hu hv with hut hvt hvt
    · exact hut.trans hvt.symm
    · obtain rfl := Status.sending.inj hu
      exact absurd htoken.symm (hother v send₂ hv)
    · obtain rfl := Status.sending.inj hv
      exact absurd htoken (hother u send₁ hu)
    · exact h.unique u v send₁ send₂ hu hv htoken
  · intro k hk
    obtain ⟨hissued, hgone⟩ := h.gone k hk
    refine ⟨hissued, ?_⟩
    rw [hlookup, if_neg]
    · exact hgone
    · rintro rfl
      cases hgone.symm.trans haccept.known
  · intro u send' hu hu'
    simp only [Function.update_apply] at hu'
    split_ifs at hu'
    · obtain rfl := Status.sending.inj hu'
      exact ⟨entry, haccept⟩
    · exact absurd hu' hu
  · intro u send' he
    cases he
  · intro k e hk
    rw [hlookup]
    split_ifs with heq'
    · rw [heq', haccept.known] at hk
      rw [Option.some.inj hk]
      exact .inl ⟨true, rfl⟩
    · exact .inl ⟨e.sending, hk⟩

/-- A call of `send_variant` ends without a send: only a token that has expired is dropped, and
that token is not being sent. -/
theorem refused (h : Sound w) {e : Event T} {t : ℕ} {store : Coordinator T}
    (he : ∀ u, e ≠ .failed u)
    (hlookup : ∀ k, store.tokens.get? k = w.store.tokens.get? k ∨
      store.tokens.get? k = none ∧ ∃ e, w.store.tokens.get? k = some e ∧
        e.expiresAt ≤ cfg.clock w.store.ticks ∧ e.sending = false) :
    Sound { w with store, status := Function.update w.status t .ended } ∧
      Follows cfg w e { w with store, status := Function.update w.status t .ended } := by
  refine ⟨⟨?_, ?_, ?_, ?_, h.nodup⟩, ?_, ?_, ?_⟩
  · intro k e hk
    rcases hlookup k with heq' | ⟨hnone, -⟩
    · exact h.issued k e (heq'.symm.trans hk)
    · cases hnone.symm.trans hk
  · intro u send' hu
    simp only [Function.update_apply] at hu
    split_ifs at hu
    obtain ⟨e, hk, hsending⟩ := h.marked u send' hu
    rcases hlookup send'.token with heq' | ⟨-, e', hk', -, hready⟩
    · exact ⟨e, heq'.trans hk, hsending⟩
    · rw [hk] at hk'
      rw [Option.some.inj hk', hready] at hsending
      cases hsending
  · intro u v send₁ send₂ hu hv
    simp only [Function.update_apply] at hu hv
    split_ifs at hu hv
    exact h.unique u v send₁ send₂ hu hv
  · intro k hk
    obtain ⟨hissued, hgone⟩ := h.gone k hk
    rcases hlookup k with heq' | ⟨hnone, -⟩
    · exact ⟨hissued, heq'.trans hgone⟩
    · exact ⟨hissued, hnone⟩
  · intro u send' hu hu'
    simp only [Function.update_apply] at hu'
    split_ifs at hu'
    exact absurd hu' hu
  · intro u send' hfailed
    exact absurd hfailed (he u)
  · intro k e hk
    rcases hlookup k with heq' | ⟨hnone, e', hk', hexpired, -⟩
    · exact .inl ⟨e.sending, heq'.trans hk⟩
    · rw [hk] at hk'
      rw [← Option.some.inj hk'] at hexpired
      exact .inr ⟨hnone, .expired hexpired⟩

/-- A call of `send_variant` starts. -/
theorem sendVariant (h : Sound w) {t : ℕ} {send : Send T}
    (hok : Punctual cfg w (.sendVariant t send))
    (hs : w.step cfg (.sendVariant t send) = some w') :
    Sound w' ∧ Follows cfg w (.sendVariant t send) w' := by
  obtain ⟨-, ⟨entry, store, haccept, htokens, rfl⟩ | ⟨store, htokens, rfl⟩⟩ :=
    World.step_sendVariant_cases hs
  · exact h.accepted haccept htokens
  · refine h.refused (by rintro u ⟨⟩) fun k ↦ ?_
    rcases htokens with htokens | ⟨entry, hknown, hexpired, htokens⟩
    · exact .inl (by rw [htokens])
    · rw [htokens, OrderedDict.get?_erase]
      split_ifs with hk
      · refine .inr ⟨rfl, entry, hk ▸ hknown, hexpired, ?_⟩
        by_contra hsending
        exact absurd hexpired
          (hok t send rfl entry hknown (Bool.not_eq_false _ ▸ hsending)).not_ge
      · exact .inl rfl

/-- The send of a call succeeds. -/
theorem delivered (h : Sound w) {t : ℕ} (hs : w.step cfg (.delivered t) = some w') :
    Sound w' ∧ Follows cfg w (.delivered t) w' := by
  rw [World.step] at hs
  split at hs
  swap
  · cases hs
  rename_i send ht
  obtain rfl := Option.some.inj hs
  obtain ⟨entry, hk, hsending⟩ := h.marked t send ht
  have hlookup (k : T) : (w.store.consumeToken send.token).tokens.get? k =
      if k = send.token then none else w.store.tokens.get? k := OrderedDict.get?_erase ..
  refine ⟨⟨?_, ?_, ?_, ?_, ?_⟩, ?_, ?_, ?_⟩
  · intro k e hk'
    rw [hlookup] at hk'
    split_ifs at hk'
    exact h.issued k e hk'
  · intro u send' hu
    simp only [Function.update_apply] at hu
    split_ifs at hu with hut
    obtain ⟨e, hk', hsending'⟩ := h.marked u send' hu
    refine ⟨e, ?_, hsending'⟩
    rw [hlookup, if_neg]
    · exact hk'
    · exact fun htoken ↦ hut (h.unique u t send' send hu ht htoken)
  · intro u v send₁ send₂ hu hv
    simp only [Function.update_apply] at hu hv
    split_ifs at hu hv
    exact h.unique u v send₁ send₂ hu hv
  · intro k hsent
    rw [hlookup]
    rcases List.mem_cons.mp hsent with rfl | hsent
    · refine ⟨?_, if_pos rfl⟩
      rw [h.issued _ entry hk]
      exact Option.some_ne_none _
    · obtain ⟨hissued, hgone⟩ := h.gone k hsent
      refine ⟨hissued, ?_⟩
      split_ifs
      · rfl
      · exact hgone
  · refine List.nodup_cons.mpr ⟨?_, h.nodup⟩
    intro hsent
    cases (h.gone _ hsent).2.symm.trans hk
  · intro u send' hu hu'
    simp only [Function.update_apply] at hu'
    split_ifs at hu'
    exact absurd hu' hu
  · intro u send' he
    cases he
  · intro k e hk'
    rw [hlookup]
    split_ifs with heq
    · exact .inr ⟨rfl, .sent t send rfl ht heq.symm⟩
    · exact .inl ⟨e.sending, hk'⟩

/-- The send of a call fails. -/
theorem failed (h : Sound w) {t : ℕ} (hs : w.step cfg (.failed t) = some w') :
    Sound w' ∧ Follows cfg w (.failed t) w' := by
  rw [World.step] at hs
  split at hs
  swap
  · cases hs
  rename_i send ht
  obtain rfl := Option.some.inj hs
  obtain ⟨entry, hk, hsending⟩ := h.marked t send ht
  have hlookup (k : T) : (w.store.restoreToken send.token).tokens.get? k =
      if k = send.token then some { entry with sending := false } else w.store.tokens.get? k := by
    rw [Coordinator.restoreToken, hk]
    exact OrderedDict.get?_set ..
  refine ⟨⟨?_, ?_, ?_, ?_, h.nodup⟩, ?_, ?_, ?_⟩
  · intro k e hk'
    rw [hlookup] at hk'
    split_ifs at hk' with heq
    · rw [heq, h.issued _ entry hk, ← Option.some.inj hk']
    · exact h.issued k e hk'
  · intro u send' hu
    simp only [Function.update_apply] at hu
    split_ifs at hu with hut
    obtain ⟨e, hk', hsending'⟩ := h.marked u send' hu
    refine ⟨e, ?_, hsending'⟩
    rw [hlookup, if_neg]
    · exact hk'
    · exact fun htoken ↦ hut (h.unique u t send' send hu ht htoken)
  · intro u v send₁ send₂ hu hv
    simp only [Function.update_apply] at hu hv
    split_ifs at hu hv
    exact h.unique u v send₁ send₂ hu hv
  · intro k hsent
    obtain ⟨hissued, hgone⟩ := h.gone k hsent
    refine ⟨hissued, ?_⟩
    rw [hlookup, if_neg]
    · exact hgone
    · rintro rfl
      cases hgone.symm.trans hk
  · intro u send' hu hu'
    simp only [Function.update_apply] at hu'
    split_ifs at hu'
    exact absurd hu' hu
  · intro u send' he hu
    obtain rfl := Event.failed.inj he
    obtain rfl := Status.sending.inj (ht.symm.trans hu)
    refine ⟨_, h.issued _ entry hk, rfl, ?_⟩
    rw [hlookup, if_pos rfl]
  · intro k e hk'
    rw [hlookup]
    split_ifs with heq
    · rw [heq, hk] at hk'
      rw [Option.some.inj hk']
      exact .inl ⟨false, rfl⟩
    · exact .inl ⟨e.sending, hk'⟩

/-- One event. -/
theorem step (h : Sound w) {e : Event T} (hok : Punctual cfg w e)
    (hs : w.step cfg e = some w') : Sound w' ∧ Follows cfg w e w' := by
  cases e with
  | prepare outbound token dialogId draftText ownerId => exact h.prepare hs
  | sendVariant t send => exact h.sendVariant hok hs
  | delivered t => exact h.delivered hs
  | failed t => exact h.failed hs

end Sound

/-! ## Runs -/

/-- In every run without a request for a token that is being sent and has expired: a token
is sent at most once and by one call at a time, the token of a send in progress is in the
table, and every event does to tokens only what it may. -/
theorem token_protocol {cfg : Setup} {w : World T}
    (h : Machine.Runs (World.step cfg) (Punctual cfg) .init w) :
    w.sent.Nodup ∧
    (∀ t u send send', w.status t = .sending send → w.status u = .sending send' →
      send.token = send'.token → t = u) ∧
    (∀ t send, w.status t = .sending send →
      ∃ entry, w.store.tokens.get? send.token = some entry ∧ entry.sending = true) ∧
    ∀ e w', Punctual cfg w e → w.step cfg e = some w' → Follows cfg w e w' := by
  have hsound : Sound w := h.preserves (fun _ _ _ hw hok hs ↦ (hw.step hok hs).1) .init
  exact ⟨hsound.nodup, hsound.unique, hsound.marked, fun e w' hok hs ↦ (hsound.step hok hs).2⟩

/-- The send of variant `"hi"` for token 5. -/
def sendHi : Send ℕ := ⟨5, 7, "me", "hi"⟩

/-- The end of a `prepare` that issues token 5. -/
def prepareHi : Event ℕ := .prepare (some (.translated "en" ["hi"])) 5 7 "privet" "me"

/-- The first send fails and the second succeeds. -/
theorem token_protocol_of_retry : ∃ w, Machine.Runs (World.step ⟨300, 200, fun _ ↦ 0⟩)
    (Punctual ⟨300, 200, fun _ ↦ 0⟩) .init w ∧ w.sent = [5] ∧ w.sent.Nodup := by
  have hexec : ((Machine.guarded (World.step ⟨300, 200, fun _ ↦ 0⟩)
      (Punctual ⟨300, 200, fun _ ↦ 0⟩)).exec .init [prepareHi, .sendVariant 0 sendHi, .failed 0,
        .sendVariant 1 sendHi, .delivered 1]).any (·.sent = [5]) = true := by decide +kernel
  obtain ⟨w, hrun, hsent⟩ := Machine.exists_run_of_exec hexec
  exact ⟨w, hrun, hsent, (token_protocol hrun).1⟩

/-- The send of a token outlasts its time to live, and a second request for the token drops
it; when the send fails the token is not there to be made ready again. -/
theorem token_dropped_mid_send :
    let cfg : Setup := ⟨300, 200, fun n ↦ 200 * n⟩
    Monotone cfg.clock ∧ ∃ w w' w'', Machine.Runs (World.step cfg) Machine.anyEvent .init w ∧
      w.status 0 = .sending sendHi ∧ w.step cfg (.sendVariant 1 sendHi) = some w' ∧
      w'.status 0 = .sending sendHi ∧ w'.store.tokens.get? 5 = none ∧
      w'.step cfg (.failed 0) = some w'' ∧ w''.store.tokens.get? 5 = none := by
  constructor
  · intro m n hmn
    exact mul_le_mul_of_nonneg_left (Nat.cast_le.mpr hmn) (by decide)
  · have hexec : ((Machine.exec (World.step ⟨300, 200, fun n ↦ 200 * n⟩) .init
        [prepareHi, .sendVariant 0 sendHi]).any fun w ↦ w.status 0 = .sending sendHi ∧
        ((w.step ⟨300, 200, fun n ↦ 200 * n⟩ (.sendVariant 1 sendHi)).any fun w' ↦
          w'.status 0 = .sending sendHi ∧ w'.store.tokens.get? 5 = none ∧
          ((w'.step ⟨300, 200, fun n ↦ 200 * n⟩ (.failed 0)).any fun w'' ↦
            w''.store.tokens.get? 5 = none) = true) = true) = true := by
      decide +kernel
    simp only [Option.any_eq_true, decide_eq_true_eq] at hexec
    obtain ⟨w, hrun, hsending, w', hw', hsending', hgone, w'', hw'', hlost⟩ := hexec
    exact ⟨w, w', w'', Machine.runs_of_exec (fun _ _ _ ↦ trivial) hrun, hsending, hw', hsending',
      hgone, hw'', hlost⟩

end TgMessenger.Outbound
