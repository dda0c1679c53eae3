import Kasane.Chain.RebuildIndexes
import Kasane.Node.IncludedOnce

namespace Kasane.Node

open BigEndian Codec Word Chain Exec

variable {T : Type} {c : Crypto} {revm : Revm} {trie : TrieCommit T}

def Silent (c : Crypto) (s : NodeState T) : NodeOp → Prop
  | .chain op => op.Silent c s.chain
  | _ => True

end Kasane.Node
