/-!
# A surface is a grid of pixels that are lit or dark

The machine draws on any type with these four operations. It never wraps a
coordinate: what becomes of a pixel past the edge is for the surface to say.
-/

namespace Chip8

/-- Pixels that can be looked at, lit and darkened one by one, and darkened all at once. -/
class Surface (σ : Type) where
  pixel : σ → Nat → Nat → Bool
  light : σ → Nat → Nat → σ
  darken : σ → Nat → Nat → σ
  clear : σ → σ

namespace Surface

/-- A request that changes pixels. -/
inductive Edit
  | light (x y : Nat)
  | darken (x y : Nat)
  | clear
  deriving DecidableEq, Repr

def apply {σ : Type} [Surface σ] (surface : σ) : Edit → σ
  | .light x y => light surface x y
  | .darken x y => darken surface x y
  | .clear => clear surface

end Surface

end Chip8
