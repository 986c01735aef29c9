import TgMessenger.Data.Integers

/-!
# The session cookie

`web/cookies.py`: a cookie is `{expiry}:{hmac_hex}`, the MAC being that of the expiry under a
key of the process.  The MAC that comes with a cookie is compared as a text; the comparison
raises when it is not ASCII.
-/

namespace TgMessenger.Web.Cookies

/-- `str.isascii`. -/
def isAscii (text : String) : Bool := text.toList.all fun c ↦ decide (c.toNat < 128)

/-- `hmac.compare_digest`, of two texts. -/
def compareDigest (a b : String) : Except String Bool :=
  if isAscii a && isAscii b then .ok (a = b)
  else .error "comparing strings with non-ASCII characters is not supported"

/-- What signing takes from the standard library. -/
structure Library (κ : Type) where
  /-- `hmac.new(key, text.encode("ascii"), sha256).hexdigest()`. -/
  hexdigest : κ → String → String
  /-- A digest is written in hexadecimal digits. -/
  isAscii_hexdigest : ∀ key text, isAscii (hexdigest key text) = true
  /-- The values of the decimal digits beyond ASCII. -/
  decimal : Char → Option (Fin 10)

variable {κ : Type} (lib : Library κ)

/-- `_sign_cookie`; `none` when `str` raises. -/
def signCookie (key : κ) (expiry : ℤ) : Option String :=
  (printInt expiry).map fun digits ↦ digits ++ ":" ++ lib.hexdigest key digits

/-- What is before the first colon. -/
def expiryPart (value : String) : List Char := value.toList.takeWhile (· ≠ ':')

/-- What is after the first colon. -/
def macPart (value : String) : String := .ofList (value.toList.dropWhile (· ≠ ':')).tail

/-- `_valid_cookie`, at `int(time.time()) = now`. -/
def validCookie (key : κ) (now : ℤ) (value : Option String) : Except String Bool :=
  match value with
  | none => .ok false
  | some value =>
    if value = "" ∨ ':' ∉ value.toList then .ok false
    else
      match parseInt lib.decimal (expiryPart value) with
      | none => .ok false
      | some expiry =>
        match printInt expiry with
        | none => .error "Exceeds the limit (4300 digits) for integer string conversion"
        | some digits => do
          if !(← compareDigest (macPart value) (lib.hexdigest key digits)) then return false
          return now < expiry

/-! ## What is accepted -/

/-- What comes after the colon is the MAC of the number before it, printed, and the number is
later than now. -/
def Accepted (key : κ) (now : ℤ) (value : Option String) : Prop :=
  ∃ text expiry digits, value = some text ∧ ':' ∈ text.toList ∧
    parseInt lib.decimal (expiryPart text) = some expiry ∧ printInt expiry = some digits ∧
    macPart text = lib.hexdigest key digits ∧ now < expiry

/-- A MAC is ASCII where it comes after a number. -/
def Comparable (value : Option String) : Prop :=
  ∀ text expiry, value = some text → ':' ∈ text.toList →
    parseInt lib.decimal (expiryPart text) = some expiry → isAscii (macPart text) = true

/-- A text in which the MAC of a number occurs only if the number was signed: what a client can
come up with that has seen the cookies of these. -/
def Unguessed (key : κ) (issued : List ℤ) (text : String) : Prop :=
  ∀ expiry digits, printInt expiry = some digits →
    (lib.hexdigest key digits).toList <:+: text.toList → expiry ∈ issued

theorem ne_empty_of_colon {text : String} (h : ':' ∈ text.toList) : text ≠ "" := by
  rintro rfl
  cases h

variable {lib} {key : κ} {now : ℤ}

/-- A cookie with a number before the colon: what is left is the comparison. -/
theorem validCookie_of_expiry {text : String} {expiry : ℤ} {digits : String}
    (hcolon : ':' ∈ text.toList) (hexpiry : parseInt lib.decimal (expiryPart text) = some expiry)
    (hdigits : printInt expiry = some digits) :
    validCookie lib key now (some text) =
      if isAscii (macPart text) then
        .ok (decide (macPart text = lib.hexdigest key digits) && decide (now < expiry))
      else .error "comparing strings with non-ASCII characters is not supported" := by
  have hcond : ¬ (text = "" ∨ ':' ∉ text.toList) := by
    rintro (hempty | hnot)
    · exact ne_empty_of_colon hcolon hempty
    · exact hnot hcolon
  rw [validCookie, if_neg hcond, hexpiry]
  simp only [hdigits, compareDigest, lib.isAscii_hexdigest, Bool.and_true]
  split_ifs
  · by_cases hsame : macPart text = lib.hexdigest key digits
    · simp [hsame, pure, Except.pure, bind, Except.bind]
    · simp [hsame, pure, Except.pure, bind, Except.bind]
  · rfl

/-- No number before a colon: the cookie is refused. -/
theorem validCookie_of_no_expiry {value : Option String}
    (h : ∀ text expiry, value = some text → ':' ∈ text.toList →
      parseInt lib.decimal (expiryPart text) ≠ some expiry) :
    validCookie lib key now value = .ok false := by
  cases value with
  | none => rfl
  | some text =>
    rw [validCookie]
    by_cases hcolon : ':' ∈ text.toList
    · have hnone : parseInt lib.decimal (expiryPart text) = none :=
        Option.eq_none_iff_forall_ne_some.mpr fun expiry ↦ h text expiry rfl hcolon
      rw [hnone]
      split_ifs <;> rfl
    · rw [if_pos (.inr hcolon)]

/-- A cookie either has a number before a colon, or it has none. -/
theorem expiry_or_not (lib : Library κ) (value : Option String) :
    (∃ text expiry digits, value = some text ∧ ':' ∈ text.toList ∧
      parseInt lib.decimal (expiryPart text) = some expiry ∧ printInt expiry = some digits) ∨
      ∀ text expiry, value = some text → ':' ∈ text.toList →
        parseInt lib.decimal (expiryPart text) ≠ some expiry := by
  by_cases h : ∃ text expiry, value = some text ∧ ':' ∈ text.toList ∧
      parseInt lib.decimal (expiryPart text) = some expiry
  · obtain ⟨text, expiry, hvalue, hcolon, hexpiry⟩ := h
    obtain ⟨digits, hdigits⟩ := exists_printInt_of_parseInt hexpiry
    exact .inl ⟨text, expiry, digits, hvalue, hcolon, hexpiry, hdigits⟩
  · right
    intro text expiry hvalue hcolon hexpiry
    exact h ⟨text, expiry, hvalue, hcolon, hexpiry⟩

/-- Validation comes to an answer exactly when the MAC can be compared. -/
theorem exists_validCookie_iff (value : Option String) :
    (∃ answer, validCookie lib key now value = .ok answer) ↔ Comparable lib value := by
  rcases expiry_or_not lib value with
    ⟨text, expiry, digits, rfl, hcolon, hexpiry, hdigits⟩ | hnone
  · rw [validCookie_of_expiry hcolon hexpiry hdigits]
    constructor
    · rintro ⟨answer, hanswer⟩ text' expiry' htext - -
      obtain rfl := Option.some.inj htext
      split_ifs at hanswer with hascii
      exact hascii
    · intro hcomparable
      rw [if_pos (hcomparable text expiry rfl hcolon hexpiry)]
      exact ⟨_, rfl⟩
  · rw [validCookie_of_no_expiry hnone]
    constructor
    · intro _ text expiry hvalue hcolon hexpiry
      exact absurd hexpiry (hnone text expiry hvalue hcolon)
    · exact fun _ ↦ ⟨false, rfl⟩

/-- What is accepted. -/
theorem validCookie_eq_true_iff (value : Option String) :
    validCookie lib key now value = .ok true ↔ Accepted lib key now value := by
  rcases expiry_or_not lib value with
    ⟨text, expiry, digits, rfl, hcolon, hexpiry, hdigits⟩ | hnone
  · rw [validCookie_of_expiry hcolon hexpiry hdigits]
    constructor
    · intro htrue
      split_ifs at htrue
      rw [Except.ok.injEq, Bool.and_eq_true, decide_eq_true_eq, decide_eq_true_eq] at htrue
      exact ⟨text, expiry, digits, rfl, hcolon, hexpiry, hdigits, htrue⟩
    · rintro ⟨text', expiry', digits', htext, -, hexpiry', hdigits', hmac, hnow⟩
      obtain rfl := Option.some.inj htext
      rw [hexpiry, Option.some.injEq] at hexpiry'
      subst hexpiry'
      rw [hdigits, Option.some.injEq] at hdigits'
      subst hdigits'
      rw [hmac, lib.isAscii_hexdigest, if_pos rfl]
      simp [hnow]
  · rw [validCookie_of_no_expiry hnone]
    constructor
    · intro hfalse
      cases hfalse
    · rintro ⟨text, expiry, -, hvalue, hcolon, hexpiry, -⟩
      exact absurd hexpiry (hnone text expiry hvalue hcolon)

/-! ## What was signed -/

/-- No digits, and no sign, are a colon. -/
theorem colon_notMem_of_printInt {n : ℤ} {digits : String} (h : printInt n = some digits) :
    ':' ∉ digits.toList := by
  have hdigits : ':' ∉ Nat.toDigits 10 n.natAbs := by
    intro hmem
    have hdigit := Nat.isDigit_of_mem_toDigits (by decide) (by decide) hmem
    cases hdigit
  rw [printInt] at h
  split_ifs at h
  · obtain rfl := Option.some.inj h
    rw [String.toList_ofList, List.mem_cons]
    rintro (heq | hmem)
    · cases heq
    · exact hdigits hmem
  · obtain rfl := Option.some.inj h
    rwa [String.toList_ofList]

/-- The parts of a cookie that was signed. -/
theorem parts_of_signCookie {expiry : ℤ} {cookie : String}
    (h : signCookie lib key expiry = some cookie) :
    ∃ digits, printInt expiry = some digits ∧ ':' ∈ cookie.toList ∧
      expiryPart cookie = digits.toList ∧ macPart cookie = lib.hexdigest key digits := by
  obtain ⟨digits, hdigits, rfl⟩ := Option.map_eq_some_iff.mp h
  have hcolon := colon_notMem_of_printInt hdigits
  have hpos : ∀ c ∈ digits.toList, decide (c ≠ ':') = true := by
    intro c hc
    rw [decide_eq_true_eq]
    rintro rfl
    exact hcolon hc
  have hlist : (digits ++ ":" ++ lib.hexdigest key digits).toList =
      digits.toList ++ ':' :: (lib.hexdigest key digits).toList := by
    rw [String.toList_append, String.toList_append, List.append_assoc]
    rfl
  refine ⟨digits, hdigits, ?_, ?_, ?_⟩
  · rw [hlist]
    exact List.mem_append_right _ List.mem_cons_self
  · rw [expiryPart, hlist, List.takeWhile_append_of_pos hpos, List.takeWhile_cons_of_neg (by simp),
      List.append_nil]
  · rw [macPart, hlist, List.dropWhile_append_of_pos hpos, List.dropWhile_cons_of_neg (by simp),
      List.tail_cons, String.ofList_toList]

/-- A MAC that comes with a cookie occurs in it. -/
theorem macPart_infix (text : String) : (macPart text).toList <:+: text.toList := by
  rw [macPart, String.toList_ofList]
  exact ((List.tail_suffix _).trans (List.dropWhile_suffix _)).isInfix

variable (lib)

/-- Validation raises exactly for a number, a colon and a text that is not ASCII; it accepts
exactly the MAC of a number that is later than now; what was signed is accepted until it
expires; and a client that has seen cookies is not accepted for longer than these are. -/
theorem valid_cookie_iff (key : κ) (now : ℤ) (value : Option String) :
    ((∃ answer, validCookie lib key now value = .ok answer) ↔ Comparable lib value) ∧
      (validCookie lib key now value = .ok true ↔ Accepted lib key now value) ∧
      (∀ expiry cookie, signCookie lib key expiry = some cookie → now < expiry →
        validCookie lib key now (some cookie) = .ok true) ∧
      ∀ issued text, value = some text → Unguessed lib key issued text →
        validCookie lib key now value = .ok true → ∃ expiry ∈ issued,
          ∃ claimed, parseInt lib.decimal (expiryPart text) = some claimed ∧ claimed ≤ expiry := by
  refine ⟨exists_validCookie_iff value, validCookie_eq_true_iff value, ?_, ?_⟩
  · intro expiry cookie hsign hnow
    obtain ⟨digits, hdigits, hcolon, hbefore, hmac⟩ := parts_of_signCookie hsign
    refine (validCookie_eq_true_iff _).mpr ⟨cookie, expiry, digits, rfl, hcolon, ?_, hdigits, hmac,
      hnow⟩
    rw [hbefore]
    exact parseInt_of_printInt lib.decimal hdigits
  · rintro issued text rfl hunguessed htrue
    obtain ⟨text', expiry, digits, htext, -, hexpiry, hdigits, hmac, -⟩ :=
      (validCookie_eq_true_iff _).mp htrue
    obtain rfl := Option.some.inj htext
    refine ⟨expiry, hunguessed expiry digits hdigits ?_, expiry, hexpiry, Int.le_refl _⟩
    rw [← hmac]
    exact macPart_infix text

/-- The library under the one key `k`, for the expiries 100 and 1. -/
def underK : Library Unit where
  hexdigest _ text :=
    if text = "100" then "b9296d8176819cf22e4de5b802521407f151db48be257cfca12b81023a2c034d"
    else "0aa2054d88556d7e5df6e54b00683dae80bbd4266a5d1cbc89abacbf856ad862"
  isAscii_hexdigest _ text := by
    split_ifs <;> decide
  decimal _ := none

/-- The MACs of other texts do not occur in the cookie that expires at 100. -/
theorem unguessed_signed {cookie : String} (hsign : signCookie underK () 100 = some cookie) :
    Unguessed underK () [100] cookie := by
  obtain rfl := Option.some.inj hsign
  intro expiry digits hdigits hinfix
  by_cases h : digits = "100"
  · subst h
    have hback := parseInt_of_printInt underK.decimal hdigits
    have hexpiry : parseInt underK.decimal "100".toList = some 100 := by rfl
    rw [hexpiry] at hback
    obtain rfl := Option.some.inj hback
    exact List.mem_cons_self
  · have hother : underK.hexdigest () digits =
        "0aa2054d88556d7e5df6e54b00683dae80bbd4266a5d1cbc89abacbf856ad862" := if_neg h
    rw [hother] at hinfix
    exact absurd hinfix (by decide +kernel)

/-- The cookie that expires at 100 is accepted before; whoever has seen no other gets in with it
for no longer than that. -/
theorem valid_cookie_iff_of_signed :
    ∃ cookie, signCookie underK () 100 = some cookie ∧
      validCookie underK () 99 (some cookie) = .ok true ∧
      (validCookie underK () 100 (some cookie) = .ok true ↔
        Accepted underK () 100 (some cookie)) ∧
      ∃ claimed, parseInt underK.decimal (expiryPart cookie) = some claimed ∧ claimed ≤ 100 := by
  have hvalid : validCookie underK () 99 _ = .ok true :=
    (valid_cookie_iff underK () 99 none).2.2.1 100 _ rfl (by decide)
  refine ⟨_, rfl, hvalid, (valid_cookie_iff underK () 100 _).2.1, ?_⟩
  obtain ⟨expiry, hissued, claimed, hclaimed, hle⟩ :=
    (valid_cookie_iff underK () 99 _).2.2.2 [100] _ rfl (unguessed_signed rfl) hvalid
  obtain rfl := List.mem_singleton.mp hissued
  exact ⟨claimed, hclaimed, hle⟩

/-- A number, a colon and a letter beyond ASCII: validation raises. -/
theorem raises_of_letter :
    ¬ ∀ (key : Unit) (now : ℤ) (value : Option String),
      ∃ answer, validCookie underK key now value = .ok answer := by
  intro h
  obtain ⟨answer, hanswer⟩ := h () 0 (some "1:é")
  have hraises : validCookie underK () 0 (some "1:é") =
      .error "comparing strings with non-ASCII characters is not supported" := by
    decide +kernel
  rw [hraises] at hanswer
  cases hanswer

end TgMessenger.Web.Cookies
