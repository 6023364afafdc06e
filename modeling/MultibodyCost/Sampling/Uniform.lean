import MultibodyCost.Scalar

/-!
# Uniform draws

Random values are drawn from a list of 64-bit words, one word a draw, and a draw gives back the
words it has not used. The upper 52 bits of a word are a fraction in `[0, 1)`.

A draw ends without a value in two ways: the words run out, or an interval is so long that its
scale is not finite.
-/

namespace MultibodyCost

inductive SamplingFault where
  | exhausted
  /-- The two ends of an interval are too far apart. -/
  | span
deriving DecidableEq

abbrev Sampler (β : Type) := StateT (List UInt64) (Except SamplingFault) β

namespace Sampler

variable {α : Type}

def fraction [Scalar α] (word : UInt64) : α :=
  Scalar.ofNat (word >>> 12).toNat / 4503599627370496.0

def greatestFraction [Scalar α] : α := 1 - 1 / 4503599627370496.0

def word : Sampler UInt64 := fun words =>
  match words with
  | [] => .error .exhausted
  | w :: ws => .ok (w, ws)

/-- A value in `[lo, hi)`; a draw that rounds up to `hi` is made again. -/
def halfOpen [Scalar α] (lo hi : α) : Sampler α := go
where
  go : List UInt64 → Except SamplingFault (α × List UInt64)
    | [] => .error .exhausted
    | w :: ws =>
      let r := fraction w * (hi - lo) + lo
      if r < hi then .ok (r, ws) else go ws

variable [Sampled α]

/-- A scale for fractions that does not carry the greatest of them above `hi`. The rounding of the
interval's length is off by a few representable values at most. -/
def fittedScale (lo hi : α) : (steps : Nat) → α → α
  | 0, scale => scale
  | steps + 1, scale =>
    if hi < scale * greatestFraction + lo then fittedScale lo hi steps (Sampled.below scale)
    else scale

def closed (lo hi : α) : Sampler α := do
  let scale : α := (hi - lo) / greatestFraction
  if Scalar.isFinite scale then
    let w ← word
    return fraction w * fittedScale lo hi 64 scale + lo
  else throw .span

def replicate {β : Type} (n : Nat) (s : Sampler β) : Sampler (List β) :=
  match n with
  | 0 => return []
  | n + 1 => do
    let x ← s
    let xs ← replicate n s
    return x :: xs

end Sampler

end MultibodyCost
