import Pebrel.Terminal.Index

/-!
# Damage

What the terminal remembers of the cells that have changed since the renderer
last asked (`term/damage.rs`): everything, or bounds for each line.
-/

namespace Pebrel.Terminal

structure LineDamageBounds where
  line : ℕ
  left : ℕ
  right : ℕ

namespace LineDamageBounds

def undamaged (line numCols : ℕ) : LineDamageBounds := ⟨line, numCols, 0⟩

def expand (b : LineDamageBounds) (left right : ℕ) : LineDamageBounds :=
  { b with left := min b.left left, right := max b.right right }

end LineDamageBounds

structure TermDamageState where
  full : Bool
  lines : List LineDamageBounds
  lastCursor : Point

namespace TermDamageState

/-- The undamaged lines `0..numLines`. -/
def undamagedLines (numCols numLines : ℕ) : List LineDamageBounds :=
  (List.range numLines).map fun line => .undamaged line numCols

def new (numCols numLines : ℕ) : TermDamageState := ⟨true, undamagedLines numCols numLines, .origin⟩

def resize (_d : TermDamageState) (numCols numLines : ℕ) : TermDamageState :=
  ⟨true, undamagedLines numCols numLines, .origin⟩

def damageLine (d : TermDamageState) (line left right : ℕ) : TermDamageState :=
  { d with lines := d.lines.modify line (·.expand left right) }

/-- `damage_point`, at a point of the screen. -/
def damagePoint (d : TermDamageState) (p : Point) : TermDamageState := d.damageLine p.line.toNat p.column p.column

end TermDamageState

end Pebrel.Terminal
