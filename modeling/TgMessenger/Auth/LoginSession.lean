import TgMessenger.Data.Machine
import Mathlib.Data.Int.Notation
import Mathlib.Algebra.Order.Ring.Nat
import Mathlib.Logic.Function.Basic
import Mathlib.Tactic.SplitIfs

/-!
# The login wizard

`LoginSession` (`core/auth.py`) leads through a login in steps: the phone, the code, perhaps
a password.  Every step but `reset` asks Telegram, and writes the fields of the session when
the answer is there; in between other requests reach the same session.  Only `submit_phone`
claims its step before it asks.

A call keeps the `LoginFlow` it was started with, so `reset`, which builds a new one, divides
the calls into those of the old login and those of the new.
-/

namespace TgMessenger.LoginSession

/-- `LoginSession.state`. -/
inductive LoginState where
  | phone
  | sending
  | code
  | password
  | done
deriving DecidableEq

/-- `CodeDelivery`. -/
structure CodeDelivery where
  kind : String
  nextKind : Option String
  timeout : Option ℤ
deriving DecidableEq

/-- What `_bind` takes from the answer to a request for a code. -/
structure Sent where
  phoneCodeHash : Option String
  delivery : CodeDelivery

/-- The fields of a `LoginFlow`. -/
structure Flow where
  phone : Option String
  codeHash : Option String
deriving DecidableEq

/-- What a call asks of Telegram. -/
inductive Request where
  | sendCode (phone : String)
  | resendCode
  | signIn (code : String)
  | checkPassword (password : String)
deriving DecidableEq

/-- A call that waits for Telegram, with its `LoginFlow`. -/
structure Call where
  request : Request
  flow : ℕ
deriving DecidableEq

/-- It waits for the first code of a login. -/
def Call.sendsCode (c : Call) : Bool :=
  match c.request with
  | .sendCode _ => true
  | _ => false

/-- How Telegram answers. -/
inductive Answer where
  | /-- To a request for a code. -/
    sent (s : Sent)
  | /-- To a code or a password. -/
    signedIn
  | /-- `SessionPasswordNeededError`. -/
    passwordNeeded
  | /-- Any other exception, or the call is cancelled. -/
    failed

/-- The session and its calls. -/
structure World where
  state : LoginState
  lastDelivery : Option CodeDelivery
  /-- The current `LoginFlow`. -/
  flow : ℕ
  flows : ℕ → Flow
  calls : ℕ → Option Call
  /-- The number of the next call. -/
  next : ℕ

inductive Event where
  | submitPhone (phone : String)
  | resend
  | submitCode (code : String)
  | submitPassword (password : String)
  | reset
  | /-- The answer to a call. -/
    answer (call : ℕ) (a : Answer)

namespace World

/-- `LoginSession.__init__`. -/
def init : World where
  state := .phone
  lastDelivery := none
  flow := 0
  flows := fun _ ↦ ⟨none, none⟩
  calls := fun _ ↦ none
  next := 0

/-- A call asks Telegram. -/
def ask (w : World) (request : Request) : World :=
  { w with
    calls := Function.update w.calls w.next (some ⟨request, w.flow⟩)
    next := w.next + 1 }

/-- `_bind`, in the flow of a call. -/
def bind (w : World) (flow : ℕ) (s : Sent) : World :=
  { w with
    flows := Function.update w.flows flow
      { w.flows flow with codeHash := s.phoneCodeHash <|> (w.flows flow).codeHash } }

/-- `send_code` has its answer: `_phone`, then `_bind`. -/
def codeSent (w : World) (flow : ℕ) (phone : String) (s : Sent) : World :=
  { w with flows := Function.update w.flows flow { w.flows flow with phone := some phone } }.bind
    flow s

/-- What follows an answer. -/
def answered (w : World) (c : Call) : Answer → Option World
  | .sent s =>
    match c.request with
    | .sendCode phone =>
      some { w.codeSent c.flow phone s with lastDelivery := some s.delivery, state := .code }
    | .resendCode => some { w.bind c.flow s with lastDelivery := some s.delivery }
    | _ => none
  | .signedIn =>
    match c.request with
    | .signIn _ | .checkPassword _ => some { w with state := .done }
    | _ => none
  | .passwordNeeded =>
    match c.request with
    | .signIn _ => some { w with state := .password }
    | _ => none
  | .failed =>
    match c.request with
    | .sendCode _ => some { w with state := .phone }
    | _ => some w

/-- What an event does.  A call out of order raises, and changes nothing. -/
def step : Machine World Event := fun w e ↦
  match e with
  | .submitPhone phone =>
    some (if w.state = .phone then { w with state := .sending }.ask (.sendCode phone) else w)
  | .resend =>
    some (if (w.state = .code ∨ w.state = .password) ∧ (w.flows w.flow).phone.isSome ∧
      (w.flows w.flow).codeHash.isSome then w.ask .resendCode else w)
  | .submitCode code =>
    some (if w.state = .code ∧ (w.flows w.flow).phone.isSome then w.ask (.signIn code) else w)
  | .submitPassword password =>
    some (if w.state = .password ∧ (w.flows w.flow).phone.isSome then
      w.ask (.checkPassword password) else w)
  | .reset =>
    some (if w.state = .done then
      { w with
        flow := w.flow + 1
        flows := Function.update w.flows (w.flow + 1) ⟨none, none⟩
        state := .phone
        lastDelivery := none } else w)
  | .answer i a =>
    (w.calls i).bind fun c ↦ { w with calls := Function.update w.calls i none }.answered c a

/-- What callers see of the current login. -/
def login (w : World) : LoginState × Option CodeDelivery × Flow :=
  (w.state, w.lastDelivery, w.flows w.flow)

end World

/-- It is more than an error. -/
def Answer.tells : Answer → Bool
  | .failed => false
  | _ => true

/-- It asks for a password. -/
def Answer.asksPassword : Answer → Bool
  | .passwordNeeded => true
  | _ => false

/-- A call that is older than the last reset gets nothing but an error, and no call is told
that a password is needed when the login is done; the calls of `submit_phone` may be answered
at any time. -/
def Prompt (w : World) : Event → Prop
  | .answer i a => ∀ c ∈ w.calls i, c.sendsCode = false →
      (a.tells = true → c.flow = w.flow) ∧ (a.asksPassword = true → w.state ≠ .done)
  | _ => True

instance (w : World) (e : Event) : Decidable (Prompt w e) :=
  match e with
  | .answer i a => inferInstanceAs (Decidable (∀ c ∈ w.calls i, c.sendsCode = false →
      (a.tells = true → c.flow = w.flow) ∧ (a.asksPassword = true → w.state ≠ .done)))
  | .submitPhone _ | .resend | .submitCode _ | .submitPassword _ | .reset => .isTrue trivial

/-! ## What an event does -/

namespace World

variable {w w' : World}

/-- A call is started, the session is reset, an answer comes, or nothing changes. -/
theorem step_cases {e : Event} (hs : w.step e = some w') :
    w' = w ∨
    (∃ phone, w.state = .phone ∧ w' = { w with state := .sending }.ask (.sendCode phone)) ∨
    (∃ request, (Call.mk request w.flow).sendsCode = false ∧
      (w.state = .code ∨ w.state = .password) ∧ w' = w.ask request) ∨
    (e = .reset ∧ w.state = .done ∧ w' = { w with
      flow := w.flow + 1
      flows := Function.update w.flows (w.flow + 1) ⟨none, none⟩
      state := .phone
      lastDelivery := none }) ∨
    ∃ i a c, e = .answer i a ∧ w.calls i = some c ∧
      { w with calls := Function.update w.calls i none }.answered c a = some w' := by
  cases e with
  | submitPhone phone =>
    obtain rfl := Option.some.inj hs
    split_ifs with hstate
    · exact .inr (.inl ⟨phone, hstate, rfl⟩)
    · exact .inl rfl
  | resend =>
    obtain rfl := Option.some.inj hs
    split_ifs with hguard
    · exact .inr (.inr (.inl ⟨_, rfl, hguard.1, rfl⟩))
    · exact .inl rfl
  | submitCode code =>
    obtain rfl := Option.some.inj hs
    split_ifs with hguard
    · exact .inr (.inr (.inl ⟨_, rfl, .inl hguard.1, rfl⟩))
    · exact .inl rfl
  | submitPassword password =>
    obtain rfl := Option.some.inj hs
    split_ifs with hguard
    · exact .inr (.inr (.inl ⟨_, rfl, .inr hguard.1, rfl⟩))
    · exact .inl rfl
  | reset =>
    obtain rfl := Option.some.inj hs
    split_ifs with hdone
    · exact .inr (.inr (.inr (.inl ⟨rfl, hdone, rfl⟩)))
    · exact .inl rfl
  | answer i a =>
    obtain ⟨c, hc, hs⟩ := Option.bind_eq_some_iff.mp hs
    exact .inr (.inr (.inr (.inr ⟨i, a, c, rfl, hc, hs⟩)))

/-- The first code of a login was sent, or was not; another answer changes nothing when it is
an error, and brings the login forward when it is not. -/
theorem answered_cases {c : Call} {a : Answer} (hs : w.answered c a = some w') :
    ∃ state lastDelivery flows, w' = { w with state, lastDelivery, flows } ∧
      (c.sendsCode = true → state = .code ∨ state = .phone) ∧
      (c.sendsCode = false →
        (state = w.state ∨ state = .done ∨ a.asksPassword = true ∧ state = .password) ∧
        (a.tells = false → w' = w)) := by
  obtain ⟨request, flow⟩ := c
  cases request with
  | sendCode phone =>
    cases a with
    | sent s =>
      obtain rfl := Option.some.inj hs
      exact ⟨_, _, _, rfl, (fun _ ↦ .inl rfl), fun h ↦ nomatch h⟩
    | failed =>
      obtain rfl := Option.some.inj hs
      exact ⟨_, _, _, rfl, (fun _ ↦ .inr rfl), fun h ↦ nomatch h⟩
    | signedIn | passwordNeeded => cases hs
  | resendCode =>
    cases a with
    | sent s =>
      obtain rfl := Option.some.inj hs
      exact ⟨_, _, _, rfl, (fun h ↦ nomatch h), fun _ ↦ ⟨.inl rfl, fun h ↦ nomatch h⟩⟩
    | failed =>
      obtain rfl := Option.some.inj hs
      exact ⟨_, _, _, rfl, (fun h ↦ nomatch h), fun _ ↦ ⟨.inl rfl, fun _ ↦ rfl⟩⟩
    | signedIn | passwordNeeded => cases hs
  | signIn code =>
    cases a with
    | signedIn =>
      obtain rfl := Option.some.inj hs
      exact ⟨_, _, _, rfl, (fun h ↦ nomatch h), fun _ ↦ ⟨.inr (.inl rfl), fun h ↦ nomatch h⟩⟩
    | passwordNeeded =>
      obtain rfl := Option.some.inj hs
      exact ⟨_, _, _, rfl, (fun h ↦ nomatch h),
        fun _ ↦ ⟨.inr (.inr ⟨rfl, rfl⟩), fun h ↦ nomatch h⟩⟩
    | failed =>
      obtain rfl := Option.some.inj hs
      exact ⟨_, _, _, rfl, (fun h ↦ nomatch h), fun _ ↦ ⟨.inl rfl, fun _ ↦ rfl⟩⟩
    | sent s => cases hs
  | checkPassword password =>
    cases a with
    | signedIn =>
      obtain rfl := Option.some.inj hs
      exact ⟨_, _, _, rfl, (fun h ↦ nomatch h), fun _ ↦ ⟨.inr (.inl rfl), fun h ↦ nomatch h⟩⟩
    | failed =>
      obtain rfl := Option.some.inj hs
      exact ⟨_, _, _, rfl, (fun h ↦ nomatch h), fun _ ↦ ⟨.inl rfl, fun _ ↦ rfl⟩⟩
    | sent | passwordNeeded => cases hs

end World

/-! ## The invariant -/

/-- One call at most waits for a first code, and only while the state says so; the other
calls of the current login were made when a code had been sent. -/
structure Orderly (w : World) : Prop where
  flow : ∀ i c, w.calls i = some c → c.flow ≤ w.flow
  sending : ∀ i c, w.calls i = some c → c.sendsCode = true →
    w.state = .sending ∧ c.flow = w.flow
  alone : ∀ i j c c', w.calls i = some c → w.calls j = some c' → c.sendsCode = true →
    c'.sendsCode = true → i = j
  asked : ∀ i c, w.calls i = some c → c.sendsCode = false → c.flow = w.flow →
    w.state ≠ .phone ∧ w.state ≠ .sending

namespace Orderly

variable {w w' : World}

theorem init : Orderly .init where
  flow _ _ h := nomatch h
  sending _ _ h := nomatch h
  alone _ _ _ _ h := nomatch h
  asked _ _ h := nomatch h

/-- The new call, or one that was there. -/
theorem calls_ask {request : Request} {i : ℕ} {c : Call}
    (hc : (w.ask request).calls i = some c) :
    i = w.next ∧ c = ⟨request, w.flow⟩ ∨ w.calls i = some c := by
  rw [World.ask] at hc
  simp only [Function.update_apply] at hc
  split_ifs at hc with hi
  · exact .inl ⟨hi, (Option.some.inj hc).symm⟩
  · exact .inr hc

/-- The first code is asked for. -/
theorem submitPhone (h : Orderly w) (hstate : w.state = .phone) (phone : String) :
    Orderly ({ w with state := .sending }.ask (.sendCode phone)) := by
  -- No other call waits for a first code, and no call of this login waits at all.
  have hnone (i : ℕ) (c : Call) (hc : w.calls i = some c) : c.sendsCode = false := by
    by_contra hsends
    exact nomatch hstate.symm.trans (h.sending i c hc (eq_true_of_ne_false hsends)).1
  refine ⟨?_, ?_, ?_, ?_⟩
  · intro i c hc
    rcases calls_ask hc with ⟨-, rfl⟩ | hc
    · exact le_refl _
    · exact h.flow i c hc
  · intro i c hc hsends
    rcases calls_ask hc with ⟨-, rfl⟩ | hc
    · exact ⟨rfl, rfl⟩
    · exact nomatch hsends.symm.trans (hnone i c hc)
  · intro i j c c' hc hc' hsends hsends'
    rcases calls_ask hc with ⟨hi, -⟩ | hc
    · rcases calls_ask hc' with ⟨hj, -⟩ | hc'
      · exact hi.trans hj.symm
      · exact nomatch hsends'.symm.trans (hnone j c' hc')
    · exact nomatch hsends.symm.trans (hnone i c hc)
  · intro i c hc hsends hflow
    rcases calls_ask hc with ⟨-, rfl⟩ | hc
    · cases hsends
    · exact absurd hstate (h.asked i c hc hsends hflow).1

/-- Another call is made. -/
theorem ask (h : Orderly w) {request : Request}
    (hrequest : (Call.mk request w.flow).sendsCode = false)
    (hstate : w.state = .code ∨ w.state = .password) : Orderly (w.ask request) := by
  have hold {i : ℕ} {c : Call} (hc : (w.ask request).calls i = some c)
      (hsends : c.sendsCode = true) : w.calls i = some c := by
    rcases calls_ask hc with ⟨-, rfl⟩ | hc
    · exact nomatch hsends.symm.trans hrequest
    · exact hc
  refine ⟨?_, ?_, ?_, ?_⟩
  · intro i c hc
    rcases calls_ask hc with ⟨-, rfl⟩ | hc
    · exact le_refl _
    · exact h.flow i c hc
  · exact fun i c hc hsends ↦ h.sending i c (hold hc hsends) hsends
  · exact fun i j c c' hc hc' hsends hsends' ↦
      h.alone i j c c' (hold hc hsends) (hold hc' hsends') hsends hsends'
  · intro i c hc hsends hflow
    show w.state ≠ .phone ∧ w.state ≠ .sending
    rcases hstate with hstate | hstate
    · rw [hstate]
      exact ⟨(fun h ↦ nomatch h), fun h ↦ nomatch h⟩
    · rw [hstate]
      exact ⟨(fun h ↦ nomatch h), fun h ↦ nomatch h⟩

/-- The calls of the old login are not those of the new. -/
theorem reset (h : Orderly w) (hdone : w.state = .done) (flows : ℕ → Flow) :
    Orderly { w with flow := w.flow + 1, flows, state := .phone, lastDelivery := none } := by
  refine ⟨?_, ?_, h.alone, ?_⟩
  · exact fun i c hc ↦ (h.flow i c hc).trans (Nat.le_succ _)
  · intro i c hc hsends
    exact nomatch hdone.symm.trans (h.sending i c hc hsends).1
  · intro i c hc hsends hflow
    exact absurd (hflow ▸ h.flow i c hc) (Nat.not_succ_le_self _)

theorem answer (h : Orderly w) {i : ℕ} {c : Call} (hc : w.calls i = some c) {a : Answer}
    (hok : Prompt w (.answer i a))
    (hs : World.answered { w with calls := Function.update w.calls i none } c a = some w') :
    Orderly w' := by
  obtain ⟨state, lastDelivery, flows, rfl, hsends, hother⟩ := World.answered_cases hs
  have hleft {j : ℕ} {c' : Call} (hc' : Function.update w.calls i none j = some c') :
      j ≠ i ∧ w.calls j = some c' := by
    rw [Function.update_apply] at hc'
    split_ifs at hc' with hj
    exact ⟨hj, hc'⟩
  refine ⟨fun j c' hc' ↦ h.flow j c' (hleft hc').2, ?_, ?_, ?_⟩
  · intro j c' hc' hsends'
    obtain ⟨hj, hc'⟩ := hleft hc'
    obtain ⟨hstate, hflow⟩ := h.sending j c' hc' hsends'
    cases hkind : c.sendsCode with
    | true => exact absurd (h.alone j i c' c hc' hc hsends' hkind) hj
    | false =>
      -- While a first code is awaited, another call of this login cannot be answered.
      refine ⟨?_, hflow⟩
      cases htells : a.tells with
      | false =>
        have hsame := congrArg World.state ((hother hkind).2 htells)
        exact hsame.trans hstate
      | true =>
        have hcurrent := (hok c hc hkind).1 htells
        exact absurd hstate (h.asked i c hc hkind hcurrent).2
  · exact fun j k c₁ c₂ h₁ h₂ ↦ h.alone j k c₁ c₂ (hleft h₁).2 (hleft h₂).2
  · intro j c' hc' hkind' hflow
    obtain ⟨hj, hc'⟩ := hleft hc'
    have hstate' := h.asked j c' hc' hkind' hflow
    cases hkind : c.sendsCode with
    | true => exact absurd (h.sending i c hc hkind).1 hstate'.2
    | false =>
      rcases (hother hkind).1 with hsame | hdone | ⟨-, hpassword⟩
      · exact hsame ▸ hstate'
      · show state ≠ .phone ∧ state ≠ .sending
        rw [hdone]
        exact ⟨(fun h ↦ nomatch h), fun h ↦ nomatch h⟩
      · show state ≠ .phone ∧ state ≠ .sending
        rw [hpassword]
        exact ⟨(fun h ↦ nomatch h), fun h ↦ nomatch h⟩

theorem step (h : Orderly w) {e : Event} (hok : Prompt w e) (hs : w.step e = some w') :
    Orderly w' := by
  rcases World.step_cases hs with rfl | ⟨phone, hstate, rfl⟩ | ⟨request, hrequest, hstate, rfl⟩ |
    ⟨rfl, hdone, rfl⟩ | ⟨i, a, c, rfl, hc, hs⟩
  · exact h
  · exact h.submitPhone hstate phone
  · exact h.ask hrequest hstate
  · exact h.reset hdone _
  · exact h.answer hc hok hs

end Orderly

/-- In every run in which no answer but an error comes to a call that is older than the last
reset, and no call is told that a password is needed when the login is done: at most one call
waits for a first code; `done` is left by `reset` only; and the answer to a call of an old
login does not change the login that goes on. -/
theorem login_orderly {w : World} (h : Machine.Runs World.step Prompt .init w) :
    (∀ i j c c', w.calls i = some c → w.calls j = some c' → c.sendsCode = true →
      c'.sendsCode = true → i = j) ∧
    ∀ e w', Prompt w e → w.step e = some w' →
      (w.state = .done → w'.state ≠ .done → e = .reset) ∧
      ∀ i a c, e = .answer i a → w.calls i = some c → c.flow ≠ w.flow → w'.login = w.login := by
  have horderly : Orderly w := h.preserves (fun _ _ _ hw hok hs ↦ hw.step hok hs) Orderly.init
  refine ⟨horderly.alone, ?_⟩
  intro e w' hok hs
  refine ⟨fun hdone hleft ↦ ?_, ?_⟩
  · rcases World.step_cases hs with rfl | ⟨phone, hstate, -⟩ | ⟨request, -, hstate, -⟩ |
      ⟨rfl, -, -⟩ | ⟨i, a, c, rfl, hc, hs⟩
    · exact absurd hdone hleft
    · exact nomatch hdone.symm.trans hstate
    · rcases hstate with hstate | hstate
      · exact nomatch hdone.symm.trans hstate
      · exact nomatch hdone.symm.trans hstate
    · rfl
    · obtain ⟨state, lastDelivery, flows, rfl, -, hother⟩ := World.answered_cases hs
      cases hkind : c.sendsCode with
      | true => exact nomatch hdone.symm.trans (horderly.sending i c hc hkind).1
      | false =>
        rcases (hother hkind).1 with hsame | hdone' | ⟨hasks, -⟩
        · exact absurd (hsame.trans hdone) hleft
        · exact absurd hdone' hleft
        · exact absurd hdone ((hok c hc hkind).2 hasks)
  · rintro i a c rfl hc hold
    obtain ⟨c', hc', hs⟩ := Option.bind_eq_some_iff.mp hs
    obtain rfl := Option.some.inj (hc.symm.trans hc')
    obtain ⟨state, lastDelivery, flows, rfl, -, hother⟩ := World.answered_cases hs
    cases hkind : c.sendsCode with
    | true => exact absurd (horderly.sending i c hc hkind).2 hold
    | false =>
      cases htells : a.tells with
      | true => exact absurd ((hok c hc hkind).1 htells) hold
      | false =>
        have hsame := congrArg World.login ((hother hkind).2 htells)
        exact hsame

/-- A login to its end and a reset, with a second code still on its way that turns out
wrong. -/
theorem login_orderly_of_late_error : ∃ w,
    Machine.Runs World.step Prompt .init w ∧ w.state = .sending ∧
      ∀ i j c c', w.calls i = some c → w.calls j = some c' → c.sendsCode = true →
        c'.sendsCode = true → i = j := by
  have hexec : ((Machine.guarded World.step Prompt).exec .init
      [.submitPhone "+100", .answer 0 (.sent ⟨some "h", ⟨"app", none, none⟩⟩), .submitCode "1",
        .submitCode "2", .answer 1 .signedIn, .reset, .answer 2 .failed,
        .submitPhone "+200"]).any (fun w ↦ w.state = .sending) = true := by
    decide +kernel
  obtain ⟨w, hrun, hstate⟩ := Machine.exists_run_of_exec hexec
  exact ⟨w, hrun, hstate, (login_orderly hrun).1⟩

/-- Two codes are on their way.  One signs in, the session is reset, and the new login asks for
its first code; then the other signs in, and the new login is done.  After another reset two
calls wait for a first code.  Or the first is answered that a password is needed, the
password signs in, and the other is answered so as well: `done` is left. -/
theorem late_answers_disturb :
    (∃ w, Machine.Runs World.step Machine.anyEvent .init w ∧ w.state = .sending ∧
      (w.calls 2).any (·.flow ≠ w.flow) = true ∧
      (w.step (.answer 2 .signedIn)).any (·.state = .done) = true) ∧
    (∃ w, Machine.Runs World.step Machine.anyEvent .init w ∧
      (w.calls 3).any Call.sendsCode = true ∧ (w.calls 4).any Call.sendsCode = true) ∧
    ∃ w, Machine.Runs World.step Machine.anyEvent .init w ∧ w.state = .done ∧
      (w.step (.answer 2 .passwordNeeded)).any (·.state = .password) = true := by
  have hlate : ((Machine.guarded World.step fun _ _ ↦ True).exec .init
      [.submitPhone "+100", .answer 0 (.sent ⟨some "h", ⟨"app", none, none⟩⟩), .submitCode "1",
        .submitCode "2", .answer 1 .signedIn, .reset, .submitPhone "+200"]).any
      (fun w ↦ w.state = .sending ∧ (w.calls 2).any (·.flow ≠ w.flow) = true ∧
        (w.step (.answer 2 .signedIn)).any (·.state = .done) = true) = true := by
    decide +kernel
  have htwo : ((Machine.guarded World.step fun _ _ ↦ True).exec .init
      [.submitPhone "+100", .answer 0 (.sent ⟨some "h", ⟨"app", none, none⟩⟩), .submitCode "1",
        .submitCode "2", .answer 1 .signedIn, .reset, .submitPhone "+200", .answer 2 .signedIn,
        .reset, .submitPhone "+300"]).any
      (fun w ↦ (w.calls 3).any Call.sendsCode = true ∧
        (w.calls 4).any Call.sendsCode = true) = true := by
    decide +kernel
  have hleft : ((Machine.guarded World.step fun _ _ ↦ True).exec .init
      [.submitPhone "+100", .answer 0 (.sent ⟨some "h", ⟨"app", none, none⟩⟩), .submitCode "1",
        .submitCode "1", .answer 1 .passwordNeeded, .submitPassword "p", .answer 3 .signedIn]).any
      (fun w ↦ w.state = .done ∧
        (w.step (.answer 2 .passwordNeeded)).any (·.state = .password) = true) = true := by
    decide +kernel
  obtain ⟨w₁, hrun₁, hw₁⟩ := Machine.exists_run_of_exec hlate
  obtain ⟨w₂, hrun₂, hw₂⟩ := Machine.exists_run_of_exec htwo
  obtain ⟨w₃, hrun₃, hw₃⟩ := Machine.exists_run_of_exec hleft
  exact ⟨⟨w₁, hrun₁, hw₁⟩, ⟨w₂, hrun₂, hw₂⟩, ⟨w₃, hrun₃, hw₃⟩⟩

end TgMessenger.LoginSession
