import PolicyValue.Json.Codec

/-!
# Settings of a verification

The seeds, the number of actions and the tolerances of an acceptance check.  Each member may be
left out of the JSON form and then has the value of `Settings.default`.
-/

namespace PolicyValue.Verification

/-- Seeds, number of actions and tolerances. -/
structure Settings where
  /-- Seeds the reference network's parameters. -/
  initSeed : UInt64
  /-- Seeds the generated inputs. -/
  inputSeed : UInt64
  /-- The number of generated actions. -/
  actions : UInt64
  /-- How far a score may be off. -/
  scoreTolerance : Float32
  /-- How far the value may be off. -/
  valueTolerance : Float32
  /-- How far a probability may be off. -/
  policyTolerance : Float32
deriving DecidableEq

namespace Settings

/-- The tolerance unless told otherwise, `1e-5`. -/
def defaultTolerance : Float32 := Float32.ofBits 0x3727c5ac

/-- The settings unless told otherwise. -/
def default : Settings := ⟨42, 123, 5, defaultTolerance, defaultTolerance, defaultTolerance⟩

section

variable [ScalarText]

/-- The members of settings. -/
def layout : Layout Settings where
  initial := default
  fields := [
    Codec.word64.optional "init_seed" (·.initSeed) fun v s => { s with initSeed := v },
    Codec.word64.optional "input_seed" (·.inputSeed) fun v s => { s with inputSeed := v },
    Codec.word64.optional "num_actions" (·.actions) fun v s => { s with actions := v },
    Codec.scalar.optional "score_tolerance" (·.scoreTolerance)
      fun v s => { s with scoreTolerance := v },
    Codec.scalar.optional "value_tolerance" (·.valueTolerance)
      fun v s => { s with valueTolerance := v },
    Codec.scalar.optional "policy_tolerance" (·.policyTolerance)
      fun v s => { s with policyTolerance := v }]

/-- The JSON form of settings. -/
def codec : Codec Settings := layout.codec

end

end Settings

end PolicyValue.Verification
