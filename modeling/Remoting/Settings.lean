/-!
# Settings of a codec

The limits bound what is accepted when a value is read, not what is written. The policy says what
becomes of an object that was written by a handler when no handler is there to read it.
-/

namespace Remoting

inductive MissingDecoder where
  | fail
  | warnAndPassThrough
  | passThrough
deriving DecidableEq, Repr

def MissingDecoder.name : MissingDecoder → String
  | .fail => "fail"
  | .warnAndPassThrough => "warn_and_pass_through"
  | .passThrough => "pass_through"

def MissingDecoder.ofName? (name : String) : Option MissingDecoder :=
  [.fail, .warnAndPassThrough, .passThrough].find? (·.name == name)

structure Settings where
  textLimit : Nat := 16 * 1024 * 1024
  payloadLimit : Nat := 64 * 1024 * 1024
  missingDecoder : MissingDecoder := .fail
deriving DecidableEq, Repr

inductive SettingsFault where
  | unreadable
  | zeroTextLimit
  | zeroPayloadLimit
deriving DecidableEq, Repr

def SettingsFault.message : SettingsFault → String
  | .unreadable => "config parse error"
  | .zeroTextLimit => "invalid config: max_string_len must be > 0"
  | .zeroPayloadLimit => "invalid config: max_payload_len must be > 0"

/-- A limit of zero would refuse everything but the empty text or payload. -/
def Settings.validate (s : Settings) : Except SettingsFault Unit :=
  if s.textLimit = 0 then .error .zeroTextLimit
  else if s.payloadLimit = 0 then .error .zeroPayloadLimit
  else .ok ()

end Remoting
