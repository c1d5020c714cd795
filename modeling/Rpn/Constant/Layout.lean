import Rpn.Constant.Code

/-!
# Blocks in memory

The blocks of a program are placed one behind the other.  Behind a block comes the one that it
goes on with, unless that one is placed already; then a jump is added.  What is jumped to comes
when the way onward has ended, the latest first.  A block that does nothing but jump is left
out, and what leads to it leads to where it jumps.

The target of a branch fills four bytes.  A low address needs fewer of them, and the bytes left
over are instructions that do nothing, each of which is a step for whoever does not jump.

* `Layout.ofBlocks` places the blocks of a program;
* `Layout.padding` and `Layout.jumpSteps` are the steps that the placement costs.
-/

namespace Rpn.Constant

/-- Where the blocks of a program are. -/
structure Layout where
  /-- The addresses of the blocks that are placed. -/
  addresses : Array (Option Nat)
  /-- Whether a jump is added to a block. -/
  jumps : Array Bool
  /-- The address behind all that is placed. -/
  size : Nat := 0
  deriving DecidableEq, Repr

namespace Layout

/-- Whether a block is placed. -/
def isPlaced (layout : Layout) (block : Nat) : Bool :=
  (layout.addresses.getD block none).isSome

/-- Places a block of some bytes. -/
def put (layout : Layout) (block bytes : Nat) : Layout :=
  { layout with
    addresses := layout.addresses.setIfInBounds block (some layout.size)
    size := layout.size + bytes }

/-- Adds a jump to a block. -/
def addJump (layout : Layout) (block : Nat) : Layout :=
  { layout with
    jumps := layout.jumps.setIfInBounds block true
    size := layout.size + jumpBytes }

/-- Places a block and all that it leads to.  `pending` are the targets of branches, and `fuel`
bounds the number of blocks. -/
def placeFrom (blocks : Array Block) : Nat → Nat → List Nat → Layout → Layout
  | 0, _, _, layout => layout
  | fuel + 1, here, pending, layout =>
    let block := blocks.getD here {}
    let layout := layout.put here block.bytes
    let pending := block.exit.aside?.toList ++ pending
    let resume (layout : Layout) :=
      match pending.dropWhile layout.isPlaced with
      | [] => layout
      | target :: pending => placeFrom blocks fuel target pending layout
    match block.exit.onward? with
    | none => resume layout
    | some target =>
      if layout.isPlaced target then resume (layout.addJump here)
      else placeFrom blocks fuel target pending layout

/-- Places the blocks of a program. -/
def ofBlocks (blocks : Array Block) : Layout :=
  placeFrom blocks blocks.size 0 []
    { addresses := Array.replicate blocks.size none, jumps := Array.replicate blocks.size false }

/-- The steps that a branch to a block costs whoever does not take it. -/
def padding (layout : Layout) (target : Nat) : Nat :=
  4 - argumentLength ((layout.addresses.getD target none).getD 0)

/-- The steps of the jump that is added to a block. -/
def jumpSteps (layout : Layout) (block : Nat) : Nat :=
  if layout.jumps.getD block false then 1 else 0

end Layout

/-- Whether a block does nothing but jump, and where it jumps. -/
def Block.detour? (block : Block) : Option Nat :=
  match block.body, block.exit with
  | [], .jump target => some target
  | _, _ => none

/-- Where each block leads if it is a block that does nothing but jump.  Such a block jumps to
one that was reserved before it. -/
def destinations (blocks : Array Block) : Array Nat :=
  blocks.foldl
    (fun found block =>
      match block.detour? with
      | some target => found.push (found.getD target target)
      | none => found.push found.size) #[]

/-- A program ready to run. -/
structure Code where
  blocks : Array Block
  layout : Layout

/-- Leaves out blocks that do nothing but jump, and places the others. -/
def Code.ofBlocks (blocks : Array Block) : Code :=
  let found := destinations blocks
  let blocks := blocks.map fun block =>
    { block with exit := block.exit.map fun target => found.getD target target }
  { blocks, layout := Layout.ofBlocks blocks }

end Rpn.Constant
