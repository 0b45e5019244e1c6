/-!
# The random number generator

Xoshiro256++ with its state filled from a 64-bit seed by SplitMix64.  All draws are pure: a
sampler takes a generator state and gives a value and the next state.

* `Generator.seeded`: the state of a seed;
* `Generator.next64`, `Generator.next32`: random words;
* `draws`: as many samples as wanted, the state threaded through.
-/

namespace PolicyValue.Sampling

/-- The state of a generator. -/
structure Generator where
  /-- First word. -/
  s0 : UInt64
  /-- Second word. -/
  s1 : UInt64
  /-- Third word. -/
  s2 : UInt64
  /-- Fourth word. -/
  s3 : UInt64
deriving DecidableEq, Repr

/-- A word rotated to the left. -/
def rotateLeft (x : UInt64) (n : UInt64) : UInt64 := (x <<< n) ||| (x >>> (64 - n))

/-- The increment of SplitMix64. -/
def splitMixStep : UInt64 := 0x9e3779b97f4a7c15

/-- The output of SplitMix64 at a counter. -/
def splitMix (x : UInt64) : UInt64 :=
  let z := (x ^^^ (x >>> 30)) * 0xbf58476d1ce4e5b9
  let z := (z ^^^ (z >>> 27)) * 0x94d049bb133111eb
  z ^^^ (z >>> 31)

namespace Generator

/-- The state of a seed: four consecutive outputs of SplitMix64. -/
def seeded (seed : UInt64) : Generator :=
  ⟨splitMix (seed + splitMixStep), splitMix (seed + 2 * splitMixStep),
    splitMix (seed + 3 * splitMixStep), splitMix (seed + 4 * splitMixStep)⟩

/-- A random word and the next state. -/
def next64 (g : Generator) : UInt64 × Generator :=
  let result := rotateLeft (g.s0 + g.s3) 23 + g.s0
  let t := g.s1 <<< 17
  let s2 := g.s2 ^^^ g.s0
  let s3 := g.s3 ^^^ g.s1
  let s1 := g.s1 ^^^ s2
  let s0 := g.s0 ^^^ s3
  (result, ⟨s0, s1, s2 ^^^ t, rotateLeft s3 45⟩)

/-- The upper half of a random word, and the next state. -/
def next32 (g : Generator) : UInt32 × Generator :=
  let (word, g) := g.next64
  ((word >>> 32).toUInt32, g)

end Generator

/-- A way to draw a value from a state, which moves on. -/
abbrev Sampler (σ α : Type) := σ → α × σ

/-- `count` samples, drawn one after the other. -/
def draws {σ α : Type} (sample : Sampler σ α) : Nat → Sampler σ (List α)
  | 0, s => ([], s)
  | count + 1, s =>
    let (x, s) := sample s
    let (xs, s) := draws sample count s
    (x :: xs, s)

/-- There are as many samples as wanted. -/
theorem length_draws {σ α : Type} (sample : Sampler σ α) (count : Nat) (s : σ) :
    (draws sample count s).1.length = count := by
  induction count generalizing s with
  | zero => rfl
  | succ count ih => rw [draws, List.length_cons, ih]

/-- Fewer samples are the first ones of more. -/
theorem take_draws {σ α : Type} (sample : Sampler σ α) (count more : Nat) (s : σ) :
    (draws sample (count + more) s).1.take count = (draws sample count s).1 := by
  induction count generalizing s with
  | zero => rfl
  | succ count ih => rw [Nat.succ_add, draws, List.take_succ_cons, ih, draws]

end PolicyValue.Sampling
