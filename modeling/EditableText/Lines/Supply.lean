import EditableText.Lines.Tree

namespace EditableText

structure NodeSupply where
  released : List Nat
  slotCount : Nat
  seed : UInt64
  deriving Repr, DecidableEq

namespace NodeSupply

def initialSeed : UInt64 := 0x9E3779B97F4A7C15

def initial : NodeSupply := ⟨[], 0, initialSeed⟩

def nextSeed (seed : UInt64) : UInt64 :=
  let seed := seed ^^^ (seed >>> 12)
  let seed := seed ^^^ (seed <<< 25)
  seed ^^^ (seed >>> 27)

def priorityOf (seed : UInt64) : UInt32 := ((seed * 0x2545F4914F6CDD1D) >>> 32).toUInt32

variable (supply : NodeSupply)

def take (extent : LineExtent) : LineEntry × NodeSupply :=
  let seed := nextSeed supply.seed
  match supply.released with
  | slot :: released =>
    (⟨slot, priorityOf seed, extent⟩, { supply with released, seed })
  | [] =>
    (⟨supply.slotCount, priorityOf seed, extent⟩,
      { supply with slotCount := supply.slotCount + 1, seed })

def restart : NodeSupply := ⟨[], 0, supply.seed⟩

def release (tree : LineTree) : NodeSupply :=
  { supply with released := (tree.slotsBefore []).reverse ++ supply.released }

def grow (tree : LineTree) (supply : NodeSupply) : List LineExtent → LineTree × NodeSupply
  | [] => (tree, supply)
  | extent :: rest =>
    let (entry, supply) := supply.take extent
    grow (tree.append (.single entry)) supply rest

def build (extents : List LineExtent) : LineTree × NodeSupply := grow .leaf supply extents

end NodeSupply

end EditableText
