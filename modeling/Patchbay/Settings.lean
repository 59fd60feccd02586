import Patchbay.Limits
import Patchbay.Log
import Patchbay.Output.Spec
import Patchbay.Text.Words
/-!
# Boot options

The boot options are a line of words, of which those of the form `key=value` may say which output
plays and at which rate. A later option replaces an earlier one; one that cannot be used is logged
and changes nothing, and unknown keys are passed over.
-/

namespace Patchbay

/-- The outputs to choose from. -/
inductive OutputKind where
  | pwm
  | i2s
  | hdmi
deriving DecidableEq, Repr

namespace OutputKind

/-- The output named by a text. Its first letter decides, in either case, and anything else means
PWM. -/
def ofText (value : String) : OutputKind :=
  match (Text.asciiLower value.toList).head? with
  | some 'i' => .i2s
  | some 'h' => .hdmi
  | _ => .pwm

def name : OutputKind → String
  | .pwm => "PWM"
  | .i2s => "I2S"
  | .hdmi => "HDMI"

/-- How the output takes audio. -/
def delivery : OutputKind → Delivery
  | .pwm | .i2s => .pull
  | .hdmi => .push Limits.defaultQueueDepthMs

end OutputKind

/-- Why an option was rejected. -/
inductive SettingError where
  | rateOutOfRange (rate : Nat)
  | notANumber
deriving DecidableEq, Repr

def SettingError.message : SettingError → String
  | .rateOutOfRange rate =>
    s!"sample rate {rate} Hz outside {Limits.minSampleRate}..={Limits.maxSampleRate}"
  | .notANumber => "not a number"

/-- The chosen output and its sample rate in Hz. -/
structure Settings where
  output : OutputKind := .pwm
  sampleRate : Nat := Limits.defaultSampleRate
deriving DecidableEq, Repr

namespace Settings

/-- The settings with another rate, if the platform accepts it. -/
def withRate (rate : Nat) (s : Settings) : Except SettingError Settings :=
  if Limits.minSampleRate ≤ rate ∧ rate ≤ Limits.maxSampleRate then
    .ok { s with sampleRate := rate }
  else .error (.rateOutOfRange rate)

/-- The settings with the rate that a text gives. -/
def withRateText (value : List Char) (s : Settings) : Except SettingError Settings :=
  match Text.word32? value with
  | some rate => s.withRate rate
  | none => .error .notANumber

/-- The settings after one word of the options. -/
def applyWord (s : Settings) (word : String) : Logged Settings :=
  match Text.cutFirst '=' word.toList with
  | none => pure s
  | some (key, value) =>
    match String.ofList key with
    | "audio" => pure { s with output := OutputKind.ofText (String.ofList value) }
    | "samplerate" =>
      match s.withRateText value with
      | .ok changed => pure changed
      | .error e => do
        Log.warn s!"samplerate={String.ofList value}: {e.message}, keeping {s.sampleRate} Hz"
        pure s
    | _ => pure s

/-- The settings after some words of the options. -/
def applyWords (s : Settings) : List String → Logged Settings
  | [] => pure s
  | word :: rest => do
    let s ← applyWord s word
    applyWords s rest

/-- The settings that a line of options gives. -/
def ofOptions (line : String) : Logged Settings := do
  let s ← applyWords {} (Text.words line)
  Log.info s!"audio config: {s.output.name} @ {s.sampleRate} Hz"
  pure s

end Settings

end Patchbay
