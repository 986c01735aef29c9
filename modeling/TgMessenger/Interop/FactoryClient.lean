import TgMessenger.Data.Json

/-!
# Requests to the factory

`FactoryClient._request` (`interop/factory_client.py`) for the POST requests of the worker.
Only an attempt that has not left is made again.
-/

namespace TgMessenger.Interop

/-- `MAX_ATTEMPTS`. -/
def maxAttempts : ℕ := 3

/-- The content of a response. -/
inductive Body where
  | empty
  | json (value : Json)
  | other

/-- How one attempt ends. -/
inductive Answer where
  | response (status : ℕ) (body : Body)
  | /-- `ConnectError`, `ConnectTimeout` or `PoolTimeout`: it never left. -/
    notSent
  | /-- Another `TransportError`. -/
    ambiguous
  | /-- Another exception. -/
    exception

/-- What the caller gets; `retry` is another attempt. -/
inductive Reply where
  | retry
  | value (body : Option Json)
  | /-- `FactoryError`, with its `status_code`. -/
    factoryError (status : Option ℕ)
  | exception

/-- `_handle_response`. -/
def handleResponse (allow404None : Bool) (status : ℕ) (body : Body) : Reply :=
  if allow404None = true ∧ status = 404 then .value none
  else if status = 401 then .factoryError (some 401)
  else if 400 ≤ status then .factoryError (some status)
  else
    match body with
    | .empty => .value none
    | .json value => .value (some value)
    | .other => .exception

/-- `_request` of a POST, after this attempt. -/
def request (allow404None : Bool) (attempt : ℕ) : Answer → Reply
  | .response status body => handleResponse allow404None status body
  | .notSent => if attempt < maxAttempts then .retry else .factoryError none
  | .ambiguous => .factoryError none
  | .exception => .exception

/-- The factory has taken the report of the request: it answered, and with no error. -/
def Answer.acknowledges : Answer → Prop
  | .response status _ => status < 400
  | _ => False

/-- The factory holds another outcome. -/
def Answer.conflicts : Answer → Prop
  | .response status _ => status = 409
  | _ => False

/-- A report is acknowledged by an answer below 400 only. -/
theorem acknowledges_of_value {attempt : ℕ} {a : Answer} {body : Option Json}
    (h : request false attempt a = .value body) : a.acknowledges := by
  cases a with
  | response status content =>
    rw [request, handleResponse.eq_def, if_neg (fun h ↦ nomatch h.1)] at h
    split_ifs at h with hauth herror
    exact not_le.mp herror
  | notSent =>
    rw [request] at h
    split_ifs at h
  | ambiguous | exception => cases h

/-- The status of an error is that of the response. -/
theorem conflicts_of_factoryError {attempt : ℕ} {a : Answer}
    (h : request false attempt a = .factoryError (some 409)) : a.conflicts := by
  cases a with
  | response status content =>
    rw [request, handleResponse.eq_def, if_neg (fun h ↦ nomatch h.1)] at h
    split_ifs at h with hauth herror
    · cases h
    · exact Option.some.inj (Reply.factoryError.inj h)
    · cases content <;> cases h
  | notSent =>
    rw [request] at h
    split_ifs at h
    cases h
  | ambiguous | exception => cases h

end TgMessenger.Interop
