import PolicyValue.Sampling.Generator

/-!
# Uniform scalars

A closed symmetric range `[-bound, bound]`, sampled in single precision.  The scale is made just
small enough that the greatest sample stays within the bound.
-/

namespace PolicyValue.Sampling

/-- A range to draw from. -/
structure UniformRange where
  /-- The lower end. -/
  low : Float32
  /-- The factor of samples from the unit interval. -/
  scale : Float32

/-- The greatest sample of the unit interval, `1 - 2 ^ -23`. -/
def greatestUnit : Float32 := Float32.ofBits 0x3f7ffffe

/-- The greatest scale, at or below the one with the given bits, whose samples stay within
`bound`. -/
def fittingScale (bound : Float32) : Nat → Float32
  | 0 => Float32.ofBits 0
  | bits + 1 =>
    let scale := Float32.ofBits (bits + 1).toUInt32
    if bound < scale * greatestUnit + -bound then fittingScale bound bits else scale

namespace UniformRange

/-- The range `[-bound, bound]` of a positive bound. -/
def symmetric (bound : Float32) : UniformRange :=
  let scale := (bound - -bound) / greatestUnit
  ⟨-bound, fittingScale bound scale.toBits.toNat⟩

/-- A sample: a random fraction of the unit interval, scaled and shifted. -/
def sample (r : UniformRange) : Sampler Generator Float32 := fun g =>
  let (word, g) := g.next32
  let unit := Float32.ofBits ((0x3f800000 : UInt32) ||| (word >>> 9)) - Float32.ofBits 0x3f800000
  (unit * r.scale + r.low, g)

end UniformRange

end PolicyValue.Sampling
