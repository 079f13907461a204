/-!
Seeds spread over a pool of four words. Every word of the seed is hashed into every word of the
pool, and the pool is hashed once more into as many words as a generator asks for.
-/
namespace StateSpace.Random

/-- A hash whose constant changes with every use. -/
structure Hasher where
  constant : UInt32
  multiplier : UInt32

def fold (v : UInt32) : UInt32 := v ^^^ (v >>> 16)

def Hasher.next (h : Hasher) (v : UInt32) : UInt32 × Hasher :=
  let constant := h.constant * h.multiplier
  (fold ((v ^^^ h.constant) * constant), { h with constant })

def mix (x y : UInt32) : UInt32 := fold (0xca01f9dd * x - 0x4973f715 * y)

/-- The words of a number, lowest first; zero has one. -/
def wordsOf (n : Nat) : List UInt32 :=
  if n < 0x100000000 then [UInt32.ofNat n] else UInt32.ofNat n :: wordsOf (n / 0x100000000)
  termination_by n

structure Pool where
  words : Vector UInt32 4
  hasher : Hasher

/-- Hashes a value and mixes it into one word of the pool. -/
def Pool.stir (p : Pool) (target : Fin 4) (v : UInt32) : Pool :=
  let (hashed, hasher) := p.hasher.next v
  { words := p.words.set target (mix p.words[target] hashed), hasher }

def places : List (Fin 4) := [0, 1, 2, 3]

def Pool.load (seed : List UInt32) : Pool :=
  places.foldl
    (fun (p : Pool) (place : Fin 4) =>
      let (hashed, hasher) := p.hasher.next (seed.getD place.val 0)
      { words := p.words.set place hashed, hasher })
    { words := Vector.replicate 4 0, hasher := ⟨0x43b0d7e5, 0x931e8875⟩ }

/-- Every word of the pool mixed into every other. -/
def Pool.crossMix (p : Pool) : Pool :=
  places.foldl
    (fun (p : Pool) (source : Fin 4) =>
      (places.filter (· != source)).foldl (fun p target => p.stir target p.words[source]) p) p

def Pool.absorb (p : Pool) (extra : List UInt32) : Pool :=
  extra.foldl (fun (p : Pool) word => places.foldl (fun p target => p.stir target word) p) p

def Pool.ofSeed (seed : Nat) : Pool :=
  let words := wordsOf seed
  ((Pool.load words).crossMix).absorb (words.drop 4)

/-- Eight words for a generator, from the pool taken in turn. -/
def Pool.output (p : Pool) : List UInt32 :=
  ((places ++ places).foldl
    (fun (state : List UInt32 × Hasher) (place : Fin 4) =>
      let (word, hasher) := state.2.next p.words[place]
      (word :: state.1, hasher))
    ([], ⟨0x8b51f9dd, 0x58f38ded⟩)).1.reverse

end StateSpace.Random
