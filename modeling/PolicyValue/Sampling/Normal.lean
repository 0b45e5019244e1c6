import PolicyValue.Sampling.Generator
import PolicyValue.Sampling.NormalTable
import PolicyValue.Scalar.Narrow

/-!
# Normally distributed scalars

Standard normal samples by rejection from layers.  A word chooses a layer and a point of it; a
point inside the next layer is under the curve at once, one at the rim is compared with the
density, and the lowest layer continues into the tail.  A sample takes as many words as it needs.
-/

namespace PolicyValue.Sampling

/-- Where the tail begins. -/
def tailStart : Float := Float.ofBits 0x400d3bb48209ad33

/-- The right end of a layer. -/
def layerEdge (i : Nat) : Float := Float.ofBits (layerEdges.getD i 0)

/-- The density at the right end of a layer. -/
def layerHeight (i : Nat) : Float := Float.ofBits (layerHeights.getD i 0)

/-- A double in the open unit interval. -/
def openUnit : Sampler Generator Float := fun g =>
  let (word, g) := g.next64
  let fraction := Float.ofBits ((0x3ff0000000000000 : UInt64) ||| (word >>> 12))
  (fraction - Float.ofBits 0x3fefffffffffffff, g)

/-- A double in the unit interval, zero included. -/
def halfOpenUnit : Sampler Generator Float := fun g =>
  let (word, g) := g.next64
  ((word >>> 11).toFloat * Float.ofBits 0x3ca0000000000000, g)

/-- The distance of a sample from the start of the tail. -/
def tailDistance : Nat → Sampler Generator Float
  | 0, g => (0, g)
  | attempts + 1, g =>
    let (a, g) := openUnit g
    let (b, g) := openUnit g
    let x := a.log / tailStart
    let y := b.log
    if -2.0 * y < x * x then tailDistance attempts g else (x, g)

/-- How often a draw is tried anew; that many rejections in a row do not occur. -/
def maxAttempts : Nat := 10000

/-- A standard normal double, tried anew while it is rejected. -/
def normalFrom : Nat → Sampler Generator Float
  | 0, g => (0, g)
  | attempts + 1, g =>
    let (bits, g) := g.next64
    let i := (bits &&& 0xff).toNat
    let u := Float.ofBits ((0x4000000000000000 : UInt64) ||| (bits >>> 12)) - 3.0
    let x := u * layerEdge i
    if x.abs < layerEdge (i + 1) then (x, g)
    else if i = 0 then
      let (d, g) := tailDistance maxAttempts g
      (if u < 0.0 then d - tailStart else tailStart - d, g)
    else
      let (v, g) := halfOpenUnit g
      let rim := layerHeight (i + 1) + (layerHeight i - layerHeight (i + 1)) * v
      if rim < (-x * x / 2.0).exp then (x, g) else normalFrom attempts g

/-- A standard normal scalar. -/
def normal : Sampler Generator Float32 := fun g =>
  let (x, g) := normalFrom maxAttempts g
  (Scalar.ofDouble x, g)

end PolicyValue.Sampling
