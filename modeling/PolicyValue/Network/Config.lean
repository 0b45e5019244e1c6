import PolicyValue.Json.Codec

/-!
# The shape of a network

`Network.Config` holds the widths of a network's layers and the epsilon of its normalizations.
Each member may be left out of its JSON form and then has the value of `Config.default`.
-/

namespace PolicyValue.Network

/-- Layer widths, and the epsilon every normalization adds to the variance. -/
structure Config where
  /-- Hidden width of both state encoders. -/
  stateHidden : UInt64
  /-- Width of a state's embedding. -/
  stateEmbed : UInt64
  /-- Hidden width of the action encoder. -/
  actionHidden : UInt64
  /-- Width of an action's embedding. -/
  actionEmbed : UInt64
  /-- Hidden width of the action scorer. -/
  scorerHidden : UInt64
  /-- Hidden width of the value head. -/
  valueHidden : UInt64
  /-- Added to the variance in every normalization. -/
  epsilon : Float32
deriving DecidableEq, BEq

namespace Config

/-- The epsilon of archives that declare none, `1e-5`. -/
def defaultEpsilon : Float32 := Float32.ofBits 0x3727c5ac

/-- The widths the model is trained with. -/
def default : Config := ⟨512, 256, 128, 64, 128, 128, defaultEpsilon⟩

section

variable [ScalarText]

/-- The members of a configuration. -/
def layout : Layout Config where
  initial := default
  fields := [
    Codec.word64.optional "state_hidden" (·.stateHidden) fun v c => { c with stateHidden := v },
    Codec.word64.optional "state_embed" (·.stateEmbed) fun v c => { c with stateEmbed := v },
    Codec.word64.optional "action_hidden" (·.actionHidden) fun v c => { c with actionHidden := v },
    Codec.word64.optional "action_embed" (·.actionEmbed) fun v c => { c with actionEmbed := v },
    Codec.word64.optional "scorer_hidden" (·.scorerHidden) fun v c => { c with scorerHidden := v },
    Codec.word64.optional "value_hidden" (·.valueHidden) fun v c => { c with valueHidden := v },
    Codec.scalar.optional "layer_norm_eps" (·.epsilon) fun v c => { c with epsilon := v }]

/-- The JSON form of a configuration. -/
def codec : Codec Config := layout.codec

end

end Config

end PolicyValue.Network
