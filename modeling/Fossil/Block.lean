import Mathlib.Data.UInt
import Mathlib.Order.Basic

/-!
# Partitions, block types, labels and I/O states

The vocabulary shared by the cache, the sources and the checker, as
`block.go`, `disk.go` and `label.go` declare it. Partitions and I/O states are
enumerations; block types and label states keep the source's `uint8` bit
layout because the code tests their bits.
-/

namespace Fossil.Block

/-- The address no block has; also the local address of a global score. -/
def NilBlock : UInt32 := 0xFFFFFFFF

/-- Largest number of blocks a source may address. -/
def MaxBlock : UInt32 := (1 : UInt32) <<< 31

/-- Bytes in one packed label. -/
def LabelSize : Nat := 14

/-- Disk partitions, in the order of their integer constants; Venti is fake. -/
inductive Part where
  | error
  | super
  | label
  | data
  | venti
  deriving DecidableEq, Repr

/-- The integer constant `disk.go` gives each partition (`iota` order). -/
def Part.toNat : Part → Nat
  | .error => 0
  | .super => 1
  | .label => 2
  | .data => 3
  | .venti => 4

/-- I/O state of a cached block (`IOState` in `block.go`). -/
inductive IOState where
  | empty
  | label
  | clean
  | dirty
  | reading
  | writing
  | readError
  | ventiError
  deriving DecidableEq, Repr

/-- Block type: bit 3 marks a directory tree, bits 0-2 the level above data. -/
abbrev BlockType := UInt8

/-- Bottom level of a file's data tree. -/
def BtData : BlockType := 0

/-- Bottom level of a directory's entry tree. -/
def BtDir : BlockType := (1 : UInt8) <<< 3

/-- Level bits of a block type. -/
def BtLevelMask : BlockType := 7

/-- One past the largest valid block type. -/
def BtMax : BlockType := (1 : UInt8) <<< 4

/-- Label state: `BsFree`, `BsBad`, or a set of the four state bits. -/
abbrev BlockState := UInt8

def BsFree : BlockState := 0

def BsBad : BlockState := 0xFF

def BsAlloc : BlockState := (1 : UInt8) <<< 0

def BsCopied : BlockState := (1 : UInt8) <<< 1

def BsVenti : BlockState := (1 : UInt8) <<< 2

def BsClosed : BlockState := (1 : UInt8) <<< 3

def BsMask : BlockState := BsAlloc ||| BsCopied ||| BsVenti ||| BsClosed

/-- A block's label: its type, state, tag and the epochs of its life. -/
structure Label where
  /-- Type fixed at allocation. -/
  typ : BlockType
  /-- Allocation, copy, Venti and close bits. -/
  state : BlockState
  /-- Tag fixed at allocation; sources check it on every fetch. -/
  tag : UInt32
  /-- Epoch in which the block was allocated. -/
  epoch : UInt32
  /-- Epoch in which the block was unlinked, `0xFFFFFFFF` while open. -/
  epochClose : UInt32
  deriving DecidableEq, Repr

end Fossil.Block
