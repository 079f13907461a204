import StateSpace.Power
import StateSpace.Random.SeedPool

/-!
A permuted congruential generator with 128 bits of state, and unbiased draws below a bound by
multiplication with rejection.
-/
namespace StateSpace.Random

structure Generator where
  state : Nat
  increment : Nat
  /-- The high half of the last output, when only its low half was used. -/
  spare : Option UInt32

namespace Generator

def multiplier : Nat := 0x2360ED051FC65DA44385DF649FCCF645

def step (g : Generator) : Generator :=
  { g with state := (g.state * multiplier + g.increment) % twoPow 128 }

def rotateRight (x : UInt64) (n : Nat) : UInt64 :=
  (x >>> UInt64.ofNat n) ||| (x <<< UInt64.ofNat ((64 - n) % 64))

/-- The halves of the new state combined, and turned by its top six bits. -/
def next64 (g : Generator) : UInt64 × Generator :=
  let g := g.step
  let folded := UInt64.ofNat (g.state / twoPow 64) ^^^ UInt64.ofNat g.state
  (rotateRight folded (g.state / twoPow 122), g)

/-- The low half of an output first, its high half with the next call. -/
def next32 (g : Generator) : UInt32 × Generator :=
  match g.spare with
  | some high => (high, { g with spare := none })
  | none =>
      let (x, g) := g.next64
      (x.toUInt32, { g with spare := some (x >>> 32).toUInt32 })

def wide (low high : UInt32) : Nat := low.toNat + twoPow 32 * high.toNat

/-- The generator of a seed. -/
def ofSeed (seed : Nat) : Generator :=
  match (Pool.ofSeed seed).output with
  | [a, b, c, d, e, f, g, h] =>
      let start := wide a b * twoPow 64 + wide c d
      let stream := wide e f * twoPow 64 + wide g h
      let g : Generator :=
        { state := 0, increment := (2 * stream + 1) % twoPow 128, spare := none }
      let g := g.step
      { g with state := (g.state + start) % twoPow 128 }.step
  | _ => { state := 0, increment := 1, spare := none }

/-- Draws again while the low half falls below the threshold, at most `tries` times. -/
def redraw (bound threshold : Nat) : Nat → Nat → Generator → Nat × Generator
  | 0, product, g => (product, g)
  | tries + 1, product, g =>
      if product % twoPow 32 < threshold then
        let (x, g) := g.next32
        redraw bound threshold tries (x.toNat * bound) g
      else
        (product, g)

/-- More redraws than any seed needs: each one is called for with a chance below one half. -/
def maxRedraws : Nat := 10000

/-- A number below the bound; there is nothing to draw below one. -/
def below (g : Generator) (bound : Nat) : Nat × Generator :=
  if bound ≤ 1 then
    (0, g)
  else
    let (x, g) := g.next32
    let product := x.toNat * bound
    if product % twoPow 32 < bound then
      let (product, g) := redraw bound ((twoPow 32 - bound) % bound) maxRedraws product g
      (product / twoPow 32, g)
    else
      (product / twoPow 32, g)

def draws (bound : Nat) : Nat → Generator → List Nat
  | 0, _ => []
  | count + 1, g =>
      let (n, g) := g.below bound
      n :: draws bound count g

end Generator

end StateSpace.Random
