import TgMessenger.Data.Text
import Mathlib.Logic.Function.Basic
import Mathlib.Data.Nat.Notation

/-!
# The pane and its transports

The pane of the plugin (`claude-plugin/hooks/register.tsx`) keeps one mutable configuration,
which names the open dialog, and reaches Telegram in two ways: a `curl` request to a warm
`serve` daemon, and a cold `tg-messenger` child.  This file has the configuration, the two
kinds of child process, and what the pane reads from their output.
-/

namespace TgMessenger.Pane

/-! ## Strings as the pane reads them -/

/-- The characters that `trim` of JavaScript removes, which are not those of `isSpace`. -/
def isTrimmed (c : Char) : Bool :=
  let n := c.toNat
  (0x09 ≤ n && n ≤ 0x0d) || n == 0x20 || n == 0xa0 || n == 0x1680 ||
    (0x2000 ≤ n && n ≤ 0x200a) || n == 0x2028 || n == 0x2029 || n == 0x202f || n == 0x205f ||
    n == 0x3000 || n == 0xfeff

/-- `body.trim() === ''`. -/
def isBlankBody (s : String) : Bool := s.toList.all isTrimmed

/-- The lines `^` and `$` see under the flag `m`. -/
def lines (s : String) : List (List Char) :=
  s.toList.splitOnP fun c ↦ c == '\n' || c == '\r' || c == '\u2028' || c == '\u2029'

/-- `cliError`: the text of Click's failure line. -/
def cliError (stderr : String) : Option String :=
  (lines stderr).findSome? fun l ↦
    if "Error: ".toList.isPrefixOf l then some (String.ofList (l.drop 7)) else none

/-- A line of the form `sent.` or `sent. [id=N]`, with its id. -/
def sentLine (l : List Char) : Option (Option ℕ) :=
  if l = "sent.".toList then some none
  else if "sent. [id=".toList.isPrefixOf l && l.getLast? == some ']' then
    let digits := (l.drop 10).dropLast
    if digits ≠ [] ∧ digits.all Char.isDigit then
      some (some (digits.foldl (fun n c ↦ 10 * n + (c.toNat - 48)) 0))
    else none
  else none

/-- `sentId`: `none` when the output confirms no send. -/
def sentId (stdout : String) : Option (Option ℕ) := (lines stdout).findSome? sentLine

/-! ## The configuration -/

/-- `ModConfig`, as far as requests read it and switches write it. -/
structure ModConfig where
  profile : String
  /-- What the user configured: a dialog id or an `@username`. -/
  target : String
  /-- The dialog id of the target. -/
  resolvedId : String
  isGroup : Bool
  ready : Bool
  reason : String
  /-- The port of the warm daemon. -/
  daemonPort : Option ℕ

namespace ModConfig

/-- `peerRef`. -/
def peerRef (cfg : ModConfig) : String :=
  if startsWith "@" cfg.target then cfg.target else cfg.resolvedId

/-- What `switchDialog` writes, before anything it waits for. -/
def switchDialog (cfg : ModConfig) (id : String) : ModConfig :=
  { cfg with
    target := id
    resolvedId := id
    isGroup := startsWith "-" id
    ready := true
    reason := "" }

theorem peerRef_switchDialog (cfg : ModConfig) (id : String) :
    (cfg.switchDialog id).peerRef = id := by
  unfold peerRef switchDialog
  split <;> rfl

@[simp]
theorem resolvedId_switchDialog (cfg : ModConfig) (id : String) :
    (cfg.switchDialog id).resolvedId = id := rfl

end ModConfig

/-! ## Child processes -/

/-- A child process that can act on Telegram. -/
inductive Spawn where
  | /-- A `curl -sf -m 20 -X POST` with its port, the segments of its path, and its form. -/
    curl (port : ℕ) (path : List String) (form : List (String × String)) (statusOnly : Bool)
  | /-- A `tg-messenger` with its arguments. -/
    cli (args : List String)
deriving DecidableEq

/-- The child `runApiRaw` spawns for a POST, if any. -/
def runApiRaw (port : Option ℕ) (path : List String) (form : List (String × String))
    (statusOnly : Bool) : Option Spawn :=
  match port with
  | none | some 0 => none
  | some port => some (.curl port path form statusOnly)

/-- What the pane and the daemon ask of others. -/
structure Env where
  /-- The dialog an `@username` belongs to. -/
  username : String → String
  /-- `c.isdigit()`. -/
  isdigit : Char → Bool
  /-- What the daemon takes for an integer in a path. -/
  isInt : String → Bool
  /-- The number under `id` in a JSON object. -/
  jsonId : String → Option ℕ

/-- The dialog a peer reference names. -/
def Env.dialog (env : Env) (ref : String) : String :=
  if startsWith "@" ref then env.username ref else ref

/-- The peer reference a child names. -/
def Spawn.ref : Spawn → Option String
  | .curl _ ["send"] form _ => form.lookup "dialog_id"
  | .curl _ ["dialogs", dialogId, "reaction"] _ _ => some dialogId
  | .curl .. => none
  | .cli ["--profile", _, "send", "--", ref, _] => some ref
  | .cli ["--profile", _, "react", "--", ref, _, _] => some ref
  | .cli _ => none

end TgMessenger.Pane
